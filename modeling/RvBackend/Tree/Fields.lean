import RvBackend.Json.Value
import RvBackend.Text.Case
import RvBackend.Tree.Node

/-! # Fields of a node

The object that describes a node is read into a record with one field per name. The names of members
are compared without regard to case. A member that comes again overwrites the earlier one, except
that the fields of a location, and of the entries of a scope, are overwritten one by one. The value
`null` leaves a text or a number as it is and empties a list.

* `Fields.ofMembers` reads the members in order; a value of a wrong type is an error. -/

namespace RvBackend

/-- A value is refused, or changes a part of a record. -/
abbrev Reading (α : Type) := Except DecodeError α

/-- A text field. -/
def readText (old : String) : Json → Reading String
  | .string s => .ok s
  | .null => .ok old
  | _ => .error .malformed

/-- An integer field. The value is an integer literal of 64 bits, without fraction or exponent. -/
def readInteger (old : Int) : Json → Reading Int
  | .number digits => ((Text.readInt64 digits.toList).elim (.error .malformed) .ok)
  | .null => .ok old
  | _ => .error .malformed

/-- A record field: the members change the old record one by one. -/
def readMembers {α : Type} (set : α → String → Json → Reading α) (old : α) : Json → Reading α
  | .object members => members.foldlM (fun r (name, _, v) => set r (Text.fold name) v) old
  | .null => .ok old
  | _ => .error .malformed

/-- One member of a location. -/
def Location.set (l : Location) (name : String) (v : Json) : Reading Location :=
  match name with
  | "line" => return { l with line := ← readInteger l.line v }
  | "col" => return { l with col := ← readInteger l.col v }
  | _ => return l

/-- The fields of an entry of a scope. -/
structure EntryFields where
  name : String := ""
  kind : String := ""
  type : String := ""
  level : Int := 0
  value : Option Int := none

namespace EntryFields

/-- One member of an entry. -/
def set (e : EntryFields) (name : String) (v : Json) : Reading EntryFields :=
  match name with
  | "name" => return { e with name := ← readText e.name v }
  | "kind" => return { e with kind := ← readText e.kind v }
  | "type" => return { e with type := ← readText e.type v }
  | "level" => return { e with level := ← readInteger e.level v }
  | "value" => if v.isNull then return { e with value := none }
    else return { e with value := some (← readInteger 0 v) }
  | _ => return e

/-- The entry that the fields describe. -/
def entry (e : EntryFields) : Except SymbolError Entry := do
  let type ← (Ty.parse e.type).mapError (.type e.name)
  let made (kind : Kind) (value : Option Int) : Entry :=
    { name := e.name, kind, type, level := e.level, value }
  match e.kind with
  | "variable" => return made .variable none
  | "parameter" => return made .parameter none
  | "constant" =>
    match e.value with
    | none => throw (.noValue e.name)
    | some v => return made .constant (some v)
  | kind => throw (.unknownKind e.name kind)

end EntryFields

/-- The entries of a scope field. A scope that comes again changes the entries one by one, also
those that a shorter scope in between has hidden. -/
structure ScopeField where
  /-- Every entry since the scope was last empty. -/
  store : List EntryFields := []
  /-- How many of them belong to the scope. -/
  shown : Nat := 0

namespace ScopeField

/-- The items of a list change the entries at the same places; more items make new entries. -/
def update : List EntryFields → List Json → Reading (List EntryFields)
  | store, [] => .ok store
  | [], v :: vs => return (← readMembers EntryFields.set {} v) :: (← update [] vs)
  | e :: es, v :: vs => return (← readMembers EntryFields.set e v) :: (← update es vs)

/-- A value of the scope field. -/
def read (s : ScopeField) : Json → Reading ScopeField
  | .null => .ok {}
  | .array [] => .ok {}
  | .array items => return ⟨← update s.store items, items.length⟩
  | _ => .error .malformed

/-- The entries of the scope. -/
def entries (s : ScopeField) : List EntryFields := s.store.take s.shown

end ScopeField

/-- A value that may describe a node of its own. -/
structure Child where
  json : Json
  /-- Where the value stands in the text. -/
  extent : Extent := {}
  node : Except DecodeError Node

/-- The members of a node's object by name. A node has all fields, whatever its kind; of the kind
depends which of them count. -/
structure Fields where
  kind : String := ""
  loc : Location := {}
  name : String := ""
  file : String := ""
  type : String := ""
  op : String := ""
  var : String := ""
  scope : ScopeField := {}
  /-- Whether there is a scope member, spelt exactly so. -/
  hasScope : Bool := false
  value : Option Child := none
  decls : List Child := []
  functions : List Child := []
  vars : List Child := []
  params : List Child := []
  statements : List Child := []
  args : List Child := []
  body : Option Child := none
  constant : Option Child := none
  target : Option Child := none
  left : Option Child := none
  right : Option Child := none
  operand : Option Child := none
  condition : Option Child := none
  yes : Option Child := none
  no : Option Child := none
  lower : Option Child := none
  upper : Option Child := none

namespace Fields

/-- A list field; `items` are the items of the value if it is an array. -/
def readItems (items : List Child) : Json → Reading (List Child)
  | .array _ => .ok items
  | .null => .ok []
  | _ => .error .malformed

/-- One member of a node, with the children its value holds if it is an array. -/
def set (f : Fields) (name : String) (c : Child) (items : List Child) : Reading Fields :=
  match name with
  | "kind" => return { f with kind := ← readText f.kind c.json }
  | "loc" => return { f with loc := ← readMembers Location.set f.loc c.json }
  | "name" => return { f with name := ← readText f.name c.json }
  | "file" => return { f with file := ← readText f.file c.json }
  | "type" => return { f with type := ← readText f.type c.json }
  | "op" => return { f with op := ← readText f.op c.json }
  | "var" => return { f with var := ← readText f.var c.json }
  | "scope" => return { f with scope := ← f.scope.read c.json }
  | "value" => return { f with value := some c }
  | "decls" => return { f with decls := ← readItems items c.json }
  | "functions" => return { f with functions := ← readItems items c.json }
  | "variables" => return { f with vars := ← readItems items c.json }
  | "params" => return { f with params := ← readItems items c.json }
  | "statements" => return { f with statements := ← readItems items c.json }
  | "args" => return { f with args := ← readItems items c.json }
  | "body" => return { f with body := some c }
  | "constant" => return { f with constant := some c }
  | "target" => return { f with target := some c }
  | "left" => return { f with left := some c }
  | "right" => return { f with right := some c }
  | "operand" => return { f with operand := some c }
  | "condition" => return { f with condition := some c }
  | "then" => return { f with yes := some c }
  | "else" => return { f with no := some c }
  | "lower" => return { f with lower := some c }
  | "upper" => return { f with upper := some c }
  | _ => return f

end Fields

end RvBackend
