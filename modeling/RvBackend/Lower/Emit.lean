import RvBackend.Asm.Printing
import RvBackend.Lower.Program

/-! # From a program to assembly text

`emit` makes the code of a program and writes its text. Nothing is written if there is no code. -/

namespace RvBackend.Lower

/-- The machines that there is code for. -/
inductive Target where
  | riscv32
deriving DecidableEq, Repr

namespace Target

/-- The target with that name. -/
def ofName? (name : String) : Option Target :=
  if name = "riscv32" ∨ name = "rv32" then some .riscv32 else none

/-- The target with that number. -/
def ofId? (id : Int) : Option Target := if id = 0 then some .riscv32 else none

/-- What is said of a name or number without a target. -/
def unknownMessage (name : String) : String := "unknown target: " ++ name

end Target

/-- Why the text of a program is not, or not wholly, written. -/
inductive EmitError where
  | failure (f : Failure)
  /-- An operand names nothing. -/
  | unprintable
  | full
deriving DecidableEq, Repr

namespace EmitError

/-- The wording of an emit error. -/
def message : EmitError → String
  | .failure f => f.message
  | .unprintable => "invalid arg"
  | .full => "writing assembly: " ++ Sink.fullMessage

/-- Whether the work ends on the spot, with nothing done about it: an operand names nothing, or a
constant has no value. -/
def isBreakdown : EmitError → Bool
  | .failure ⟨_, .valueless _⟩ => true
  | .failure _ => false
  | .unprintable => true
  | .full => false

/-- Why a program is not written that is not printed. -/
def ofPrint : Asm.PrintError → EmitError
  | .unprintable => .unprintable
  | .full => .full

end EmitError

/-- The outcome of an emission. -/
structure Emission where
  outcome : Except EmitError Unit
  sink : Sink
  slots : List Int64
  log : List LogRecord

/-- The text of assembly code, or why there is none. -/
def codeText (code : Except Failure Asm.Program) : Except EmitError String := do
  let program ← code.mapError .failure
  match program.text? with
  | some text => return text
  | none => throw .unprintable

/-- Makes the code of a program and prints it to a sink. -/
def emit (abi : Abi) (p : RvBackend.Program) (sink : Sink) : Emission :=
  let made := lowerProgram abi p
  match made.code with
  | .error f => { outcome := .error (.failure f), sink, slots := made.slots, log := made.log }
  | .ok code =>
    let (printed, sink) := code.printTo sink
    { outcome := printed.mapError .ofPrint, sink, slots := made.slots, log := made.log }

end RvBackend.Lower
