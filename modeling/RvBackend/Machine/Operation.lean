import RvBackend.Asm.Register

/-! # Operations of the machine

An instruction is a mnemonic with operands. `Operation.decode` finds the operation it stands for, or
what is wrong with it; an instruction with a fault does no harm until the machine reaches it. -/

namespace RvBackend.Machine

open Asm (Register)

/-- An operand of an instruction as the machine reads it. -/
inductive Operand where
  | reg (r : Register)
  | imm (n : Int32)
  | mem (offset : Int32) (base : Register)
  | label (name : String)
deriving DecidableEq, Repr

/-- The operations on one word. -/
inductive UnaryOp where
  | mv
  | neg
  | not
  | seqz
  | snez
  | sltz
  | sgtz
deriving DecidableEq, Repr

/-- The operations on two words. -/
inductive BinaryOp where
  | add
  | sub
  | mul
  | div
  | rem
  | and
  | or
  | xor
  | slt
  | sll
  | sra
deriving DecidableEq, Repr

/-- The conditions of a branch. -/
inductive Condition where
  | eq
  | ne
  | lt
  | ge
deriving DecidableEq, Repr

/-- What an instruction does. -/
inductive Operation where
  | nop
  /-- Puts a number into a register. -/
  | loadNumber (rd : Register) (n : Int32)
  /-- Puts the address of a data label into a register. -/
  | loadAddress (rd : Register) (label : String)
  | unary (op : UnaryOp) (rd rs : Register)
  | binary (op : BinaryOp) (rd rs rs' : Register)
  | immediate (op : BinaryOp) (rd rs : Register) (n : Int32)
  | load (rd : Register) (offset : Int32) (base : Register)
  | store (rs : Register) (offset : Int32) (base : Register)
  | jump (label : String)
  /-- Calls a helper or the code at a label, and keeps the address behind the call. -/
  | call (link : Register) (label : String)
  /-- Goes to the address in a register. -/
  | jumpTo (r : Register)
  | branchZero (c : Condition) (r : Register) (label : String)
  | branch (c : Condition) (r r' : Register) (label : String)
deriving DecidableEq, Repr

/-- Why an instruction stands for no operation. -/
inductive Malformed where
  | count (expected got : Nat)
  /-- The operand with that number, counted from one, is of another kind than it should be. -/
  | kind (number : Nat)
  | call
  | unsupported
deriving DecidableEq, Repr

/-- The wording for a malformed instruction. -/
def Malformed.message : Malformed → String
  | .count expected got =>
    "expected " ++ Text.decimal expected ++ " operands, got " ++ Text.decimal got
  | .kind number => "operand " ++ Text.decimal number ++ " has the wrong kind"
  | .call => "expected [reg,] label"
  | .unsupported => "unsupported instruction"

/-! ### Operands by kind -/

/-- The operand with a number as a register. -/
def Operand.asReg (number : Nat) : Operand → Except Malformed Register
  | .reg r => .ok r
  | _ => .error (.kind number)

/-- The operand with a number as a constant. -/
def Operand.asImm (number : Nat) : Operand → Except Malformed Int32
  | .imm n => .ok n
  | _ => .error (.kind number)

/-- The operand with a number as a place in memory. -/
def Operand.asMem (number : Nat) : Operand → Except Malformed (Int32 × Register)
  | .mem offset base => .ok (offset, base)
  | _ => .error (.kind number)

/-- The operand with a number as a label. -/
def Operand.asLabel (number : Nat) : Operand → Except Malformed String
  | .label name => .ok name
  | _ => .error (.kind number)

/-- One operand. -/
def one {α : Type} (f : Nat → Operand → Except Malformed α) : List Operand → Except Malformed α
  | [a] => f 1 a
  | ops => .error (.count 1 ops.length)

/-- Two operands. -/
def two {α β : Type} (f : Nat → Operand → Except Malformed α)
    (g : Nat → Operand → Except Malformed β) : List Operand → Except Malformed (α × β)
  | [a, b] => do return (← f 1 a, ← g 2 b)
  | ops => .error (.count 2 ops.length)

/-- Three operands. -/
def three {α β γ : Type} (f : Nat → Operand → Except Malformed α)
    (g : Nat → Operand → Except Malformed β) (h : Nat → Operand → Except Malformed γ) :
    List Operand → Except Malformed (α × β × γ)
  | [a, b, c] => do return (← f 1 a, ← g 2 b, ← h 3 c)
  | ops => .error (.count 3 ops.length)

namespace Operation

/-- An operation on one word. -/
def ofUnary (op : UnaryOp) (ops : List Operand) : Except Malformed Operation := do
  let (rd, rs) ← two Operand.asReg Operand.asReg ops
  return .unary op rd rs

/-- An operation on the words of two registers. -/
def ofBinary (op : BinaryOp) (ops : List Operand) : Except Malformed Operation := do
  let (rd, rs, rs') ← three Operand.asReg Operand.asReg Operand.asReg ops
  return .binary op rd rs rs'

/-- An operation on the word of a register and a constant. -/
def ofImmediate (op : BinaryOp) (ops : List Operand) : Except Malformed Operation := do
  let (rd, rs, n) ← three Operand.asReg Operand.asReg Operand.asImm ops
  return .immediate op rd rs n

/-- A branch on the word of a register. -/
def ofBranchZero (c : Condition) (ops : List Operand) : Except Malformed Operation := do
  let (r, label) ← two Operand.asReg Operand.asLabel ops
  return .branchZero c r label

/-- A branch on the words of two registers. -/
def ofBranch (c : Condition) (ops : List Operand) : Except Malformed Operation := do
  let (r, r', label) ← three Operand.asReg Operand.asReg Operand.asLabel ops
  return .branch c r r' label

/-- A call; unless it names a register, it keeps the address behind it in `ra`. -/
def ofCall : List Operand → Except Malformed Operation
  | [.label name] => .ok (.call Register.ra name)
  | [.reg link, .label name] => .ok (.call link name)
  | _ => .error .call

/-- The operation of an instruction. -/
def decode (mnemonic : String) (ops : List Operand) : Except Malformed Operation :=
  match mnemonic with
  | "nop" => .ok .nop
  | "li" => do
    let (rd, n) ← two Operand.asReg Operand.asImm ops
    return .loadNumber rd n
  | "la" => do
    let (rd, label) ← two Operand.asReg Operand.asLabel ops
    return .loadAddress rd label
  | "mv" => ofUnary .mv ops
  | "neg" => ofUnary .neg ops
  | "not" => ofUnary .not ops
  | "seqz" => ofUnary .seqz ops
  | "snez" => ofUnary .snez ops
  | "sltz" => ofUnary .sltz ops
  | "sgtz" => ofUnary .sgtz ops
  | "add" => ofBinary .add ops
  | "sub" => ofBinary .sub ops
  | "mul" => ofBinary .mul ops
  | "div" => ofBinary .div ops
  | "rem" => ofBinary .rem ops
  | "and" => ofBinary .and ops
  | "or" => ofBinary .or ops
  | "xor" => ofBinary .xor ops
  | "slt" => ofBinary .slt ops
  | "sll" => ofBinary .sll ops
  | "sra" => ofBinary .sra ops
  | "addi" => ofImmediate .add ops
  | "andi" => ofImmediate .and ops
  | "ori" => ofImmediate .or ops
  | "xori" => ofImmediate .xor ops
  | "slti" => ofImmediate .slt ops
  | "lw" => do
    let (rd, offset, base) ← two Operand.asReg Operand.asMem ops
    return .load rd offset base
  | "sw" => do
    let (rs, offset, base) ← two Operand.asReg Operand.asMem ops
    return .store rs offset base
  | "j" => do return .jump (← one Operand.asLabel ops)
  | "jal" => ofCall ops
  | "call" => ofCall ops
  | "jr" => do return .jumpTo (← one Operand.asReg ops)
  | "ret" => .ok (.jumpTo Register.ra)
  | "beqz" => ofBranchZero .eq ops
  | "bnez" => ofBranchZero .ne ops
  | "bltz" => ofBranchZero .lt ops
  | "bgez" => ofBranchZero .ge ops
  | "beq" => ofBranch .eq ops
  | "bne" => ofBranch .ne ops
  | "blt" => ofBranch .lt ops
  | "bge" => ofBranch .ge ops
  | _ => .error .unsupported

/-- The instructions whose constant has 12 bits. -/
def hasShortConstant (mnemonic : String) : Bool :=
  ["addi", "andi", "ori", "xori", "slti"].contains mnemonic

end Operation

end RvBackend.Machine
