import RvBackend.Asm.Line
import RvBackend.Lower.Fault

/-! # Words on the stack

Code keeps the values of expressions on the stack, one word each: `push` puts the word of a register
on top, `pop` takes the top word into a register. -/

namespace RvBackend.Lower

open Asm

/-- The return address. -/
def ra : Operand := .reg "ra"

/-- The stack pointer. -/
def sp : Operand := .reg "sp"

/-- The frame pointer. -/
def s0 : Operand := .reg "s0"

/-- The first register for intermediate values. -/
def t0 : Operand := .reg "t0"

/-- The second register for intermediate values. -/
def t1 : Operand := .reg "t1"

/-- The register of the first argument and of the result. -/
def a0 : Operand := .reg "a0"

/-- The bytes of a word. -/
def wordSize : Int64 := 4

/-- Puts the word of a register on the stack. -/
def push (r : Operand) : List Line :=
  [.op "addi" [sp, sp, .imm (-wordSize)], .op "sw" [r, .mem 0 "sp"]]

/-- Takes the top word off the stack into a register. -/
def pop (r : Operand) : List Line :=
  [.op "lw" [r, .mem 0 "sp"], .op "addi" [sp, sp, .imm wordSize]]

/-- Takes the top word off the stack. -/
def discard : List Line := [.op "addi" [sp, sp, .imm wordSize]]

/-- Puts the address of an entry into a register: a global one has a label, a local one a slot. -/
def loadAddress (r : Operand) (e : Entry) : List Line :=
  if e.isGlobal then [.op "la" [r, .label e.name]] else [.op "addi" [r, s0, .imm e.slot]]

/-- The value of a constant, if it fits 32 bits. -/
def immediate (loc : Location) (value : Int) : Except Fault Int64 :=
  if Text.inWord 32 value then .ok (Int64.ofInt value)
  else .error (.unsupported loc (.wideConstant value))

/-- The entry that a name stands for; its value must fit a word. -/
def resolve (scopes : Scopes) (loc : Location) (name : String) : Except Fault Entry :=
  match scopes.find? name with
  | none => .error (.unresolved loc name)
  | some e =>
    if e.type.isScalar then .ok e else .error (.unsupported loc (.referenceType e.name e.type))

end RvBackend.Lower
