/-! # JSON values

`Json` is a JSON value as it was read: an object keeps its members in the order of the text,
repeated names included, a number keeps its digits, and every member remembers the text that its
value was read from. -/

namespace RvBackend

/-- A stretch of text: the text from where it begins, and the text behind it. -/
structure Extent where
  start : List Char := []
  rest : List Char := []

/-- The characters of the stretch. -/
def Extent.text (e : Extent) : String :=
  String.ofList (e.start.take (e.start.length - e.rest.length))

/-- A JSON value. -/
inductive Json where
  | null
  | bool (b : Bool)
  | number (digits : String)
  | string (s : String)
  | array (items : List Json)
  | object (members : List (String × Extent × Json))

namespace Json

/-- The value `null`. -/
def isNull : Json → Bool
  | .null => true
  | _ => false

end Json

end RvBackend
