import RvBackend.Toml.Date

/-! # Values of a settings file

A settings file in TOML is a list of expressions: a table header, or a key with its value. Of
numbers only integers matter here; they keep their digits, and dates keep their text. Truth values
and fractions are `other`. -/

namespace RvBackend.Toml

/-- A key: its parts, written with dots between them. -/
abbrev Key := List String

/-- One part of a key as it is written. -/
structure KeyPart where
  name : String
  /-- Whether escapes stand in it, so that its name is not to be found in the text. -/
  escaped : Bool := false
deriving DecidableEq, Repr

/-- The key of some parts. -/
def keyOf (parts : List KeyPart) : Key := parts.map (·.name)

/-- A value. -/
inductive Value where
  | text (s : String)
  | integer (digits : List Char)
  | date (form : DateForm) (word : List Char)
  | other
  | array (items : List Value)
  | table (members : List (Key × Value))

/-- One expression of a file. -/
inductive Expression where
  | assign (key : Key) (value : Value)
  | table (parts : List KeyPart)
  /-- One more table of an array of tables. -/
  | arrayTable (key : Key)

end RvBackend.Toml
