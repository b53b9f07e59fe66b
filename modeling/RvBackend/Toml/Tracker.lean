import RvBackend.Toml.Value

/-! # What a settings file may define once

Every key has one value and every table one header. A table that dotted keys have made is closed at
the next header. An inline table is complete in itself, so nothing can be added to it later.

* `Tracker.assign`, `Tracker.table` and `Tracker.arrayTable` take one expression, or refuse it. -/

namespace RvBackend.Toml

/-- What a key stands for. -/
inductive Role where
  | value
  | table
  | arrayTable
deriving DecidableEq, Repr

/-- What is known of a key. -/
structure Mark where
  role : Role
  /-- Whether nothing may open it again. -/
  closed : Bool := false
  /-- Whether a key made it, and not a header. -/
  byKey : Bool := false
deriving DecidableEq, Repr

/-- The keys that are known, and the table that keys now belong to. -/
structure Tracker where
  marks : List (Key × Mark) := []
  current : Key := []

namespace Tracker

/-- What is known of a key. -/
def find? (t : Tracker) (key : Key) : Option Mark := t.marks.lookup key

/-- One more key. -/
def put (t : Tracker) (key : Key) (m : Mark) : Tracker :=
  { t with marks := (key, m) :: t.marks.filter (·.1 != key) }

/-- Whether a key is a longer key than another one that it begins with. -/
def isBelow (base key : Key) : Bool := base.isPrefixOf key && base.length < key.length

/-- The tables that keys have made below the current one are closed. -/
def close (t : Tracker) : Tracker :=
  let shut (key : Key) (m : Mark) : Mark :=
    if m.byKey && isBelow t.current key then { m with closed := true, byKey := false } else m
  { t with marks := t.marks.map fun (key, m) => (key, shut key m) }

/-- The tables on the way to a header, behind the key `base`, are there, or are made. -/
def open? (t : Tracker) (base : Key) : Key → Option Tracker
  | [] => some t
  | part :: rest =>
    let key := base ++ [part]
    match t.find? key with
    | none => (t.put key { role := .table }).open? key rest
    | some m => if m.role = .value then none else t.open? key rest

/-- A table header. -/
def table (t : Tracker) (key : Key) : Option Tracker := do
  let t ← t.close.open? [] key.dropLast
  match t.find? key with
  | none => return { t.put key { role := .table, closed := true } with current := key }
  | some m =>
    if m.role = .table ∧ !m.closed then
      return { t.put key { m with closed := true } with current := key }
    else none

/-- The header of one more table of an array, and whether it is the first. -/
def arrayTable (t : Tracker) (key : Key) : Option (Tracker × Bool) := do
  let t ← t.close.open? [] key.dropLast
  match t.find? key with
  | none => return ({ t.put key { role := .arrayTable, closed := true } with current := key }, true)
  | some m =>
    if m.role = .arrayTable then
      let kept := t.marks.filter fun (k, _) => !isBelow key k
      return ({ marks := kept, current := key }, false)
    else none

/-- The parts of a key behind the key `base`: the last one must be new, the others may be tables
that are still open. -/
def walk (t : Tracker) (base : Key) : Key → Option Tracker
  | [] => some t
  | [part] =>
    let key := base ++ [part]
    match t.find? key with
    | none => some (t.put key { role := .value, byKey := true })
    | some _ => none
  | part :: rest =>
    let key := base ++ [part]
    match t.find? key with
    | none => (t.put key { role := .table, byKey := true }).walk key rest
    | some m => if m.role = .table ∧ !m.closed then t.walk key rest else none

/-- A key of the current table. -/
def assign (t : Tracker) (key : Key) : Option Tracker := t.walk t.current key

/-- Keys of the current table one by one. -/
def assignAll (t : Tracker) (keys : List Key) : Option Tracker := keys.foldlM assign t

end Tracker

mutual

/-- Whether the inline tables in a value define no key twice. -/
def Value.isConsistent : Value → Bool
  | .array items => areConsistent items
  | .table members =>
    (Tracker.assignAll {} (members.map Prod.fst)).isSome && membersConsistent members
  | _ => true

/-- Whether values are consistent one by one. -/
def areConsistent : List Value → Bool
  | [] => true
  | v :: vs => v.isConsistent && areConsistent vs

/-- Whether the values of members are consistent one by one. -/
def membersConsistent : List (Key × Value) → Bool
  | [] => true
  | (_, v) :: ms => v.isConsistent && membersConsistent ms

end

end RvBackend.Toml
