import RvBackend.Machine.Operation
import RvBackend.Text.Blank
import RvBackend.Text.Literal
import RvBackend.Text.Quoted
import RvBackend.Text.Split
import Std.Data.HashMap

/-! # Assembly text for the machine

A `Listing` is an assembly text made ready to run: the instructions in order, the labels of code and
of data, and the words that the memory holds at the start. Directives other than those that choose a
section, reserve room or place words are passed over.

* `Listing.parse` reads a text; the first line at fault decides. -/

namespace RvBackend.Machine

open Asm (Register)

/-- One instruction: the number of its line, its mnemonic and operands, and what it does. -/
structure Instruction where
  line : Nat
  mnemonic : String
  operands : List Operand
  operation : Except Malformed Operation := Operation.decode mnemonic operands

/-- The words of the memory by their addresses; all other words are zero. -/
abbrev Memory := Std.HashMap UInt32 Int32

/-- An assembly text made ready to run. -/
structure Listing where
  instructions : Array Instruction := #[]
  /-- The labels in code, with the number of the instruction behind each. -/
  codeLabels : List (String × Nat) := []
  /-- The labels of data, with their addresses. -/
  dataLabels : List (String × UInt32) := []
  memory : Memory := {}

/-- Why a line cannot be read. -/
inductive LineFault where
  | label (text : String)
  | duplicate (name : String)
  | roomOperands
  | roomSize (text : String)
  | word (text : String)
  | outsideText (mnemonic : String)
  | baseRegister (text : String)
  | offset (text : String)
  | immediate (text : String)
  | emptyOperand
  | wideOffset (mnemonic : String) (n : Int32)
  | wideImmediate (mnemonic : String) (n : Int32)
deriving DecidableEq, Repr

/-- The wording of a line's fault. -/
def LineFault.message : LineFault → String
  | .label text => "invalid label " ++ Text.quote text
  | .duplicate name => "duplicate label " ++ name
  | .roomOperands => ".comm needs a name and a size"
  | .roomSize text => "invalid .comm size " ++ Text.quote text
  | .word text => "invalid .word " ++ Text.quote text
  | .outsideText mnemonic => "instruction " ++ mnemonic ++ " outside .text"
  | .baseRegister text => "invalid base register in " ++ Text.quote text
  | .offset text => "invalid offset in " ++ Text.quote text
  | .immediate text => "immediate " ++ text ++ " out of range"
  | .emptyOperand => "empty operand"
  | .wideOffset mnemonic n =>
    mnemonic ++ ": offset " ++ Text.decimal n.toInt ++ " out of 12-bit range"
  | .wideImmediate mnemonic n =>
    mnemonic ++ ": immediate " ++ Text.decimal n.toInt ++ " out of 12-bit range"

/-- A line's fault with the number of the line. -/
structure ParseError where
  line : Nat
  fault : LineFault
deriving DecidableEq, Repr

/-- The wording of a parse error. -/
def ParseError.message (e : ParseError) : String :=
  "line " ++ Text.decimal e.line ++ ": " ++ e.fault.message

/-! ### Parts of a line -/

/-- A line without its comment, which begins with two slashes or a hash. -/
def withoutComment : List Char → List Char
  | [] => []
  | '#' :: _ => []
  | '/' :: '/' :: _ => []
  | c :: cs => c :: withoutComment cs

/-- The operands behind a mnemonic: parts between commas, without the blanks around them. -/
def splitOperands (cs : List Char) : List (List Char) :=
  if (Text.trim cs).isEmpty then [] else (Text.splitOn ',' cs).map Text.trim

/-- The place in memory that an operand with an opening parenthesis names, `none` if it does not end
with a closing one. -/
def parseMem? (cs : List Char) : Option (Except LineFault Operand) := do
  let (offset, inner) ← Text.cut '(' cs
  let base ← Text.stripSuffix [')'] inner
  return match Register.ofName? (String.ofList base) with
    | none => .error (.baseRegister (String.ofList cs))
    | some r =>
      if offset.isEmpty then .ok (.mem 0 r)
      else
        match Text.readLiteral 32 offset with
        | .error _ => .error (.offset (String.ofList cs))
        | .ok n => .ok (.mem (Int32.ofInt n) r)

/-- A number from `-2^31` up to `2^32 - 1`, taken as a word; a text that is not an integer of 64
bits is a label. -/
def parseImmOrLabel (cs : List Char) : Except LineFault Operand :=
  match Text.readLiteral 64 cs with
  | .ok n =>
    if -(Text.wordCount 31 : Int) ≤ n ∧ n < Text.wordCount 32 then .ok (.imm (Int32.ofInt n))
    else .error (.immediate (String.ofList cs))
  | .error _ => if cs.isEmpty then .error .emptyOperand else .ok (.label (String.ofList cs))

/-- One operand: a register, a place in memory, a number or a label. -/
def parseOperand (cs : List Char) : Except LineFault Operand :=
  match Register.ofName? (String.ofList cs) with
  | some r => .ok (.reg r)
  | none => (parseMem? cs).getD (parseImmOrLabel cs)

/-- Whether a number fits 12 bits with a sign. -/
def isShort (n : Int32) : Bool := -2048 ≤ n && n ≤ 2047

/-- Refuses an operand that the instruction has no room for. -/
def checkWidth (mnemonic : String) : Operand → Except LineFault Unit
  | .mem offset _ => if isShort offset then .ok () else .error (.wideOffset mnemonic offset)
  | .imm n =>
    if Operation.hasShortConstant mnemonic && !isShort n then .error (.wideImmediate mnemonic n)
    else .ok ()
  | _ => .ok ()

/-! ### Reading line by line -/

/-- A text that has been read up to some line. -/
structure Loader where
  listing : Listing := {}
  /-- Whether the current section holds code. -/
  inText : Bool := true
  /-- The address of the next data. -/
  next : UInt32 := 0x00100000

namespace Loader

/-- A label at this place. -/
def addLabel (s : Loader) (line : List Char) (name : List Char) : Except LineFault Loader := do
  if name.isEmpty || name.any (fun c => c == ' ' || c == '\t') then
    throw (.label (String.ofList line))
  let label := String.ofList name
  if (s.listing.codeLabels.lookup label).isSome || (s.listing.dataLabels.lookup label).isSome then
    throw (.duplicate label)
  if s.inText then
    let entry := (label, s.listing.instructions.size)
    return { s with listing.codeLabels := entry :: s.listing.codeLabels }
  else return { s with listing.dataLabels := (label, s.next) :: s.listing.dataLabels }

/-- Room under a label, in whole words. -/
def addRoom (s : Loader) : List (List Char) → Except LineFault Loader
  | name :: size :: _ => do
    let label := String.ofList name
    let invalid : LineFault := .roomSize (String.ofList size)
    match Text.readInt64 size with
    | none => throw invalid
    | some n =>
      if n ≤ 0 then throw invalid
      if (s.listing.dataLabels.lookup label).isSome then throw (.duplicate label)
      let room := Int64.ofInt n + 3 &&& ~~~3
      return { s with
        listing.dataLabels := (label, s.next) :: s.listing.dataLabels
        next := s.next + room.toUInt64.toUInt32 }
  | _ => throw .roomOperands

/-- One word at the next address. -/
def addWord (s : Loader) (arg : List Char) : Except LineFault Loader :=
  match Text.readLiteral 64 arg with
  | .error _ => .error (.word (String.ofList arg))
  | .ok n =>
    .ok { s with listing.memory := s.listing.memory.insert s.next (Int32.ofInt n), next :=
      s.next + 4 }

/-- A directive. -/
def directive (s : Loader) (name : String) (rest : List Char) : Except LineFault Loader :=
  match name with
  | ".section" =>
    let section' := String.ofList rest
    .ok { s with inText := section' == ".text" || section' == "text" }
  | ".text" => .ok { s with inText := true }
  | ".data" | ".rodata" | ".bss" => .ok { s with inText := false }
  | ".comm" => s.addRoom (splitOperands rest)
  | ".word" => (splitOperands rest).foldlM addWord s
  | _ => .ok s

/-- An instruction. -/
def addInstruction (s : Loader) (line : Nat) (mnemonic : String) (rest : List Char) :
    Except LineFault Loader := do
  unless s.inText do throw (.outsideText mnemonic)
  let operands ← (splitOperands rest).mapM parseOperand
  operands.forM (checkWidth mnemonic)
  return { s with listing.instructions := s.listing.instructions.push { line, mnemonic, operands } }

/-- One line, without its comment and the blanks around it. -/
def addLine (s : Loader) (number : Nat) (line : List Char) : Except LineFault Loader :=
  if line.isEmpty then .ok s
  else
    match Text.stripSuffix [':'] line with
    | some name => s.addLabel line name
    | none =>
      let (mnemonic, rest) := (Text.cut ' ' line).getD (line, [])
      let rest := Text.trim rest
      if mnemonic.head? == some '.' then s.directive (String.ofList mnemonic) rest
      else s.addInstruction number (String.ofList mnemonic) rest

end Loader

/-- Lines from a number on. -/
def loadLines (s : Loader) (number : Nat) : List (List Char) → Except ParseError Loader
  | [] => .ok s
  | line :: lines =>
    match s.addLine number (Text.trim (withoutComment line)) with
    | .error fault => .error ⟨number, fault⟩
    | .ok s => loadLines s (number + 1) lines

/-- The listing of an assembly text. -/
def Listing.parse (text : String) : Except ParseError Listing :=
  Loader.listing <$> loadLines {} 1 (Text.splitOn '\n' text.toList)

end RvBackend.Machine
