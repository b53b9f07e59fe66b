import RvBackend.Machine.Input
import RvBackend.Machine.Listing
import RvBackend.Machine.Word
import RvBackend.Output.Sink

/-! # One step of the machine

The machine has registers, a memory, an input, an output and the number of the next instruction.
Calls of the two helpers, which print and read an integer, are served by the machine itself.

* `Machine.step` carries out one operation. -/

namespace RvBackend.Machine

open Asm (Register)

/-- The address of the first instruction; each takes four bytes. -/
def codeBase : Int32 := 0x00010000

/-- Where the stack begins. -/
def stackTop : Int32 := 0x7ffffff0

/-- The return address with which a program ends. -/
def haltAddress : Int32 := 0

/-- The names a program is run with. -/
structure Names where
  entry : String := "main"
  printHelper : String := "printInt"
  readHelper : String := "readInt"

/-- The state of a machine. -/
structure State where
  registers : Vector Int32 32 := Vector.replicate 32 0
  pc : Nat := 0
  memory : Memory := {}
  input : Input := .absent
  output : Sink := {}

/-- Why an instruction cannot be carried out. -/
inductive Trap where
  | malformed (m : Malformed)
  | unknownSymbol (name : String)
  | badLoad (addr : UInt32)
  | badStore (addr : UInt32)
  | badJump (addr : UInt32)
  | input (f : InputFault)
  | outputFull
deriving DecidableEq, Repr

/-- An address as it is shown. -/
def addressText (addr : UInt32) : String := "0x" ++ Text.hex 8 addr.toNat

/-- The wording of a trap. -/
def Trap.message : Trap → String
  | .malformed m => m.message
  | .unknownSymbol name => "unknown symbol: " ++ name
  | .badLoad addr => "misaligned memory access: load from " ++ addressText addr
  | .badStore addr => "misaligned memory access: store to " ++ addressText addr
  | .badJump addr => "jump to invalid address " ++ addressText addr
  | .input .exhausted => "no integer on input"
  | .input (.notInteger word) => "no integer on input: " ++ Text.quoteBytes word
  | .input .tooLong => "bufio.Scanner: token too long"
  | .outputFull => Sink.fullMessage

/-- How a step ends. -/
inductive Outcome where
  | running
  | halted
  | trapped (t : Trap)
deriving DecidableEq, Repr

/-- The address of an instruction. -/
def codeAddress (index : Nat) : Int32 := codeBase + Int32.ofNat index * 4

/-- The number of the instruction at an address. -/
def codeIndex? (addr : Int32) : Option Nat :=
  if addr < codeBase || (addr - codeBase) % 4 != 0 then none
  else some ((addr - codeBase) / 4).toNatClampNeg

namespace State

/-- The word of a register. -/
def reg (s : State) (r : Register) : Int32 := s.registers.get r

/-- Puts a word into a register; the first one stays zero. -/
def setReg (s : State) (r : Register) (v : Int32) : State :=
  if r.val = 0 then s else { s with registers := s.registers.set r v }

/-- Goes on to the next instruction. -/
def next (s : State) : State := { s with pc := s.pc + 1 }

/-- The address at an offset from the address in a register. -/
def address (s : State) (offset : Int32) (base : Register) : UInt32 :=
  (s.reg base + offset).toUInt32

/-- The word at an address. -/
def word (s : State) (addr : UInt32) : Int32 := s.memory.getD addr 0

/-- The state, unchanged, with the trap that stops it. -/
def trap (s : State) (t : Trap) : State × Outcome := (s, .trapped t)

/-- The register gets a word, and the machine goes on. -/
def put (s : State) (r : Register) (v : Int32) : State × Outcome := ((s.setReg r v).next, .running)

/-- Goes to the code at a label. -/
def goTo (code : Listing) (s : State) (label : String) : State × Outcome :=
  match code.codeLabels.lookup label with
  | some pc => ({ s with pc }, .running)
  | none => s.trap (.unknownSymbol label)

/-- Prints the first argument. -/
def printInteger (s : State) : State × Outcome :=
  let (output, fits) := s.output.write (Text.decimal (s.reg Register.a0).toInt ++ "\n")
  ({ s with output }, if fits then .running else .trapped .outputFull)

/-- Reads the result from the input. -/
def readInteger (s : State) : State × Outcome :=
  let (read, input) := s.input.nextInteger
  let s := { s with input }
  match read with
  | .ok v => (s.setReg Register.a0 v, .running)
  | .error f => s.trap (.input f)

/-- Calls a helper or the code at a label. A helper changes the link register as well. -/
def callLabel (names : Names) (code : Listing) (s : State) (link : Register) (label : String) :
    State × Outcome :=
  let behind := codeAddress (s.pc + 1)
  let served : State × Outcome → State × Outcome
    | (s, .running) => s.put link behind
    | stopped => stopped
  if label = names.printHelper then served s.printInteger
  else if label = names.readHelper then served s.readInteger
  else
    match code.codeLabels.lookup label with
    | some pc => ({ s.setReg link behind with pc }, .running)
    | none => s.trap (.unknownSymbol label)

/-- Goes to the address in a register; one address ends the program. -/
def jumpTo (s : State) (r : Register) : State × Outcome :=
  let addr := s.reg r
  if addr = haltAddress then (s, .halted)
  else
    match codeIndex? addr with
    | some pc => ({ s with pc }, .running)
    | none => s.trap (.badJump addr.toUInt32)

/-- The word at an address, which must be a multiple of four, goes into a register. -/
def load (s : State) (r : Register) (addr : UInt32) : State × Outcome :=
  if addr % 4 = 0 then s.put r (s.word addr) else s.trap (.badLoad addr)

/-- The word of a register goes to an address, which must be a multiple of four. -/
def store (s : State) (r : Register) (addr : UInt32) : State × Outcome :=
  if addr % 4 = 0 then
    let v := s.reg r
    ({ s with memory := s.memory.insert addr v }.next, .running)
  else s.trap (.badStore addr)

/-- The address of a data label goes into a register. -/
def loadAddress (code : Listing) (s : State) (r : Register) (label : String) : State × Outcome :=
  match code.dataLabels.lookup label with
  | some addr => s.put r addr.toInt32
  | none => s.trap (.unknownSymbol label)

end State

/-- Carries out one operation. -/
def step (names : Names) (code : Listing) (s : State) : Operation → State × Outcome
  | .nop => (s.next, .running)
  | .loadNumber rd n => s.put rd n
  | .loadAddress rd label => s.loadAddress code rd label
  | .unary op rd rs => let v := op.apply (s.reg rs); s.put rd v
  | .binary op rd rs rs' => let v := op.apply (s.reg rs) (s.reg rs'); s.put rd v
  | .immediate op rd rs n => let v := op.apply (s.reg rs) n; s.put rd v
  | .load rd offset base => let addr := s.address offset base; s.load rd addr
  | .store rs offset base => let addr := s.address offset base; s.store rs addr
  | .jump label => s.goTo code label
  | .call link label => s.callLabel names code link label
  | .jumpTo r => s.jumpTo r
  | .branchZero c r label => if c.holds (s.reg r) 0 then s.goTo code label else (s.next, .running)
  | .branch c r r' label =>
    if c.holds (s.reg r) (s.reg r') then s.goTo code label else (s.next, .running)

end RvBackend.Machine
