import RvBackend.Text.Decimal

/-! # Lines of assembly text

A line holds a label or an instruction, and maybe a comment. An operand that names nothing, neither
a register nor a label, cannot be printed, so `Line.text?` has no answer for such a line. -/

namespace RvBackend.Asm

/-- One operand of an instruction. -/
inductive Operand where
  | reg (name : String)
  /-- The memory at an offset from the address in a register. -/
  | mem (offset : Int64) (base : String)
  | label (name : String)
  | imm (n : Int64)
deriving DecidableEq, Repr

namespace Operand

/-- The operand that the parts make: memory if `indirect`, or else the first part that is there.
Without any part it names nothing. -/
def ofParts (reg label : String) (imm : Option Int64) (offset : Int64) (indirect : Bool) :
    Operand :=
  if indirect then .mem offset reg
  else if reg ≠ "" then .reg reg
  else
    match label, imm with
    | "", some n => .imm n
    | name, _ => .label name

/-- An operand as it is printed. -/
def text? : Operand → Option String
  | .reg name => if name = "" then none else some name
  | .mem offset base =>
    if base = "" then none else some (Text.decimal offset.toInt ++ "(" ++ base ++ ")")
  | .label name => if name = "" then none else some name
  | .imm n => some (Text.decimal n.toInt)

end Operand

/-- What a line holds besides its comment. -/
inductive Content where
  | blank
  | label (name : String)
  | op (mnemonic : String) (operands : List Operand)
deriving DecidableEq, Repr

/-- One line of a function. -/
structure Line where
  content : Content := .blank
  /-- The comment; an empty one is none. -/
  comment : String := ""
deriving DecidableEq, Repr

namespace Line

/-- The line with these parts; an empty text is no part, and a label hides an instruction. -/
def ofParts (label mnemonic : String) (operands : List Operand) (comment : String) : Line :=
  if label ≠ "" then ⟨.label label, comment⟩
  else if mnemonic ≠ "" then ⟨.op mnemonic operands, comment⟩
  else ⟨.blank, comment⟩

/-- A line with an instruction only. -/
def op (mnemonic : String) (operands : List Operand) : Line := ⟨.op mnemonic operands, ""⟩

/-- A line with a label only. -/
def label (name : String) : Line := ⟨.label name, ""⟩

/-- A line with a comment only. -/
def remark (text : String) : Line := ⟨.blank, text⟩

/-- The operands of an instruction behind its mnemonic. -/
def operandsText? : List Operand → Option String
  | [] => some ""
  | operands => do return " " ++ ", ".intercalate (← operands.mapM Operand.text?)

/-- A line as it is printed, with its end. -/
def text? (l : Line) : Option String :=
  let comment (lead : String) : String := if l.comment = "" then "" else lead ++ l.comment
  match l.content with
  | .blank => some (comment "// " ++ "\n")
  | .label name => some (name ++ ":" ++ comment "  // " ++ "\n")
  | .op mnemonic operands => do
    return "    " ++ mnemonic ++ (← operandsText? operands) ++ comment "  // " ++ "\n"

end Line

end RvBackend.Asm
