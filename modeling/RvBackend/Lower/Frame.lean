import RvBackend.Lower.Stack
import RvBackend.Output.Log
import RvBackend.Settings.Abi

/-! # Frames

Each local entry of a function has a slot of its own in the frame of the function, also if its block
has ended before another one begins. Slots are given out downwards from the two words in which the
frame keeps the return address and the frame pointer of the caller.

* `install` gives the entries of a scope their slots.
* `frameSize` is the size of a frame with room for all slots. -/

namespace RvBackend.Lower

open Asm

/-- The least multiple of a power of two that is not below the address, in 64 bits. -/
def alignUp (addr alignment : Int64) : Int64 := (addr + alignment - 1) &&& ~~~(alignment - 1)

/-- What generation has used up, and what it has told. -/
structure Progress where
  /-- The labels made so far. -/
  labels : Nat := 0
  /-- The lowest slot of the function, relative to its frame pointer. -/
  cursor : Int64 := -(2 * wordSize)
  /-- The slots given out, in the order of the entries. -/
  slots : Array Int64 := #[]
  log : Array LogRecord := #[]

/-- Steps of generation. What has been told before a fault stays told. -/
abbrev Lowering := ExceptT Fault (StateM Progress)

/-- The function that code is made for. -/
structure Context where
  abi : Abi
  function : String

/-- A record for whoever follows the generation. -/
def note (message : String) (attrs : List (String × String)) : Lowering Unit :=
  modify fun p => { p with log := p.log.push { level := .debug, message, attrs } }

/-- A slot of its own for the next entry. -/
def newSlot (abi : Abi) : Lowering Int64 :=
  modifyGet fun p =>
    let slot := p.cursor - abi.slotSize
    (slot, { p with cursor := slot, slots := p.slots.push slot })

/-- A label that no other place has. -/
def newLabel : Lowering String :=
  modifyGet fun p => (".L" ++ Text.decimal (p.labels + 1), { p with labels := p.labels + 1 })

/-- The code that fills the slot of an entry when its scope begins: a constant gets its value, a
parameter the word of its register. `params` is the number of parameters before it. -/
def fillSlot (abi : Abi) (loc : Location) (params : Nat) (e : Entry) : Except Fault (List Line) :=
  match e.kind with
  | .constant =>
    match e.value with
    | none => .error (.valueless e.name)
    | some v => do
      let value ← immediate loc v
      return [.remark ("local constant " ++ e.name), .op "li" [t0, .imm value],
        .op "sw" [t0, .mem e.slot "s0"]]
  | .parameter =>
    match abi.registers[params]? with
    | none => .error (.unsupported loc (.parameter e.name abi.maxArgs))
    | some r => .ok [.remark ("parameter " ++ e.name), .op "sw" [.reg r, .mem e.slot "s0"]]
  | _ => .ok []

/-- The entries with their slots, and the code that fills the slots. -/
def installEntries (abi : Abi) (loc : Location) (params : Nat) :
    List Entry → Lowering (List Entry × List Line)
  | [] => return ([], [])
  | e :: es => do
    unless e.type.isScalar do throw (.unsupported loc (.localType e.kind e.name e.type))
    let e := { e with slot := ← newSlot abi }
    let code ← fillSlot abi loc params e
    let (es, rest) ← installEntries abi loc (if e.kind = .parameter then params + 1 else params) es
    return (e :: es, code ++ rest)

/-- The table of a scope with the slots of its entries, and the code that fills the slots. -/
def install (ctx : Context) (loc : Location) :
    Option Table → Lowering (Option Table × List Line)
  | none => return (none, [])
  | some t => do
    let (entries, code) ← installEntries ctx.abi loc 0 t.entries
    unless entries.isEmpty do
      note "installed frame" [("function", ctx.function),
        ("entries", Text.decimal entries.length), ("cursor", Text.decimal (← get).cursor.toInt)]
    return (some ⟨entries⟩, code)

/-- The size of a frame whose lowest slot is at the cursor. -/
def frameSize (ctx : Context) (loc : Location) (cursor : Int64) : Except Fault Int64 :=
  let size := max ctx.abi.frameSize (alignUp (-cursor) 16)
  if size ≤ Abi.maxFrameSize then .ok size
  else .error (.unsupported loc (.frame ctx.function size Abi.maxFrameSize))

end RvBackend.Lower
