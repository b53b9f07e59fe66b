import RvBackend.Machine.Step

/-! # Runs of the machine

A run starts at the entry with an empty stack and ends when the entry returns, when an instruction
cannot be carried out, or when the limit of steps is reached. Registers, memory and input carry over
from one run to the next.

* `run` runs a listing. -/

namespace RvBackend.Machine

open Asm (Register)

/-- Why a run fails. -/
inductive RunError where
  | stepLimit (limit : Nat)
  | unknownEntry (name : String)
  | outside (pc : Nat)
  | trap (line : Nat) (mnemonic : String) (t : Trap)
deriving DecidableEq, Repr

/-- The wording of a run error. -/
def RunError.message : RunError → String
  | .stepLimit limit => "step limit exceeded: " ++ Text.decimal limit
  | .unknownEntry name => "unknown symbol: entry " ++ name
  | .outside pc => "pc " ++ Text.decimal pc ++ " outside program"
  | .trap line mnemonic t =>
    "line " ++ Text.decimal line ++ ": " ++ mnemonic ++ ": " ++ t.message

/-- How a program ended. -/
structure Exit where
  /-- The result of the entry. -/
  result : Int32
  /-- Whether the stack and frame pointers are where they began. -/
  balanced : Bool
deriving DecidableEq, Repr

/-- The outcome of a run, the steps it took, and the state it left. -/
structure Run where
  outcome : Except RunError Exit
  steps : Nat
  state : State

/-- What a listing is run with. -/
structure Options where
  names : Names := {}
  maxSteps : Nat := 10000000

/-- The options with the default for each empty name, and for a limit that is not positive. -/
def Options.ofParts (entry printHelper readHelper : String) (maxSteps : Int) : Options :=
  let pick (name default : String) : String := if name.isEmpty then default else name
  { names :=
      { entry := pick entry ({} : Names).entry
        printHelper := pick printHelper ({} : Names).printHelper
        readHelper := pick readHelper ({} : Names).readHelper }
    maxSteps := if maxSteps ≤ 0 then ({} : Options).maxSteps else maxSteps.toNat }

/-- The state before the first run of a listing. -/
def State.initial (code : Listing) (input : Input) (output : Sink) : State :=
  { memory := code.memory, input, output }

/-- The state at the start of a run. -/
def State.start (s : State) (pc : Nat) : State :=
  { ((s.setReg Register.ra haltAddress).setReg Register.sp stackTop).setReg Register.s0
    stackTop with
    pc }

/-- How the program ends in a state. -/
def State.exit (s : State) : Exit :=
  { result := s.reg Register.a0
    balanced := s.reg Register.sp = stackTop && s.reg Register.s0 = stackTop }

/-- At most that many more steps. -/
def runSteps (options : Options) (code : Listing) (s : State) (steps : Nat) : Nat → Run
  | 0 => ⟨.error (.stepLimit options.maxSteps), steps, s⟩
  | left + 1 =>
    match code.instructions[s.pc]? with
    | none => ⟨.error (.outside s.pc), steps, s⟩
    | some i =>
      match i.operation with
      | .error m => ⟨.error (.trap i.line i.mnemonic (.malformed m)), steps + 1, s⟩
      | .ok op =>
        match step options.names code s op with
        | (s, .running) => runSteps options code s (steps + 1) left
        | (s, .halted) => ⟨.ok s.exit, steps + 1, s⟩
        | (s, .trapped t) => ⟨.error (.trap i.line i.mnemonic t), steps + 1, s⟩

/-- A run of a listing from its entry. -/
def run (options : Options) (code : Listing) (s : State) : Run :=
  match code.codeLabels.lookup options.names.entry with
  | none => ⟨.error (.unknownEntry options.names.entry), 0, s⟩
  | some pc => runSteps options code (s.start pc) 0 options.maxSteps

/-- The word under a data label. -/
def State.wordAt? (code : Listing) (s : State) (label : String) : Except Trap Int32 :=
  match code.dataLabels.lookup label with
  | some addr => .ok (s.word addr)
  | none => .error (.unknownSymbol label)

end RvBackend.Machine
