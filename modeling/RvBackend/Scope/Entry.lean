import RvBackend.Tree.Ty

/-! # Declared names

An `Entry` is one declared name with its type, the level it is declared at (level zero is global)
and, for a constant, its value. `slot` is the place of a local entry relative to the frame pointer;
it is zero until code has been made for the entry's scope. -/

namespace RvBackend

/-- What a name stands for. A number without a meaning is kept as `other`. -/
inductive Kind where
  | variable
  | constant
  | parameter
  | other (n : Int)
deriving DecidableEq, Repr

namespace Kind

/-- The kind of a number. -/
def ofId (n : Int) : Kind :=
  if n = 0 then .variable else if n = 1 then .constant else if n = 2 then .parameter else .other n

/-- A kind as it is printed. -/
def text : Kind → String
  | .variable => "variable"
  | .constant => "constant"
  | .parameter => "parameter"
  | .other n => "kind(" ++ Text.decimal n ++ ")"

end Kind

/-- One declared name. -/
structure Entry where
  name : String
  kind : Kind
  type : Ty
  level : Int
  value : Option Int := none
  slot : Int64 := 0
deriving DecidableEq, Repr

namespace Entry

/-- Entries of level zero are global. -/
def isGlobal (e : Entry) : Bool := e.level == 0

/-- An entry as it is printed. -/
def text (e : Entry) : String :=
  let value :=
    match e.value with
    | some v => " value=" ++ Text.decimal v
    | none => ""
  "(" ++ e.kind.text ++ " " ++ e.name ++ " " ++ e.type.text ++ " level=" ++ Text.decimal e.level ++
    value ++ ")"

end Entry

end RvBackend
