import RvBackend.Text.Quoted
import RvBackend.Text.Split

/-! # Types of the source language

A type is predeclared, a name of its own, or an array. Only the predeclared `integer` and `boolean`
are scalar, that is, fit one word; a type that merely has one of these names is not.

* `Ty.text` prints a type, `Ty.parse` reads one: a name, and behind it the sizes of an array in
  brackets.
* `Ty.equals` compares names, and of arrays the sizes and the element types. -/

namespace RvBackend

/-- The types that every program knows. -/
inductive Predeclared where
  | integer
  | boolean
  | real
  | string
  | void
deriving DecidableEq, Repr

/-- The name of a predeclared type. -/
def Predeclared.name : Predeclared → String
  | .integer => "integer"
  | .boolean => "boolean"
  | .real => "real"
  | .string => "string"
  | .void => "void"

/-- The type of an entry or a constant. -/
inductive Ty where
  | predeclared (p : Predeclared)
  | named (name : String)
  | array (element : Ty) (sizes : List Int)
deriving DecidableEq, Repr

/-- Why a text is not the name of a type. -/
inductive TypeError where
  | emptyName
  | invalidArray (text : String)
deriving DecidableEq, Repr

/-- The wording of a type error. -/
def TypeError.message : TypeError → String
  | .emptyName => "empty type name"
  | .invalidArray text => "invalid array type " ++ Text.quote text

namespace Ty

/-- The type `integer`. -/
def integer : Ty := .predeclared .integer

/-- The type `boolean`. -/
def boolean : Ty := .predeclared .boolean

/-- The type `void`. -/
def void : Ty := .predeclared .void

/-- The predeclared type of that name, or else the type with a name of its own. -/
def ofName (name : String) : Ty :=
  match [Predeclared.integer, .boolean, .real, .string, .void].find? (·.name == name) with
  | some p => .predeclared p
  | none => .named name

/-- A type as it is written: the sizes of an array follow its element type in brackets. -/
def text : Ty → String
  | .predeclared p => p.name
  | .named name => name
  | .array element sizes =>
    element.text ++ String.join (sizes.map fun n => "[" ++ Text.decimal n ++ "]")

/-- Whether a type is an array type. -/
def isArray : Ty → Bool
  | .array .. => true
  | _ => false

/-- The types whose values fit one word. -/
def isScalar (t : Ty) : Bool := t == integer || t == boolean

/-- Types of the same name, or arrays of the same sizes with equal elements. -/
def equals : Ty → Ty → Bool
  | .array e sizes, .array e' sizes' => sizes == sizes' && e.equals e'
  | .array .., _ => false
  | _, .array .. => false
  | a, b => a.text == b.text

/-- One size of an array with its closing bracket. -/
def parseSize (part : List Char) : Option Int :=
  (Text.stripSuffix [']'] part).bind Text.readInt64

/-- The sizes of an array, written behind its first opening bracket. An opening bracket with nothing
before the next one, or at the end, counts for nothing. -/
def parseSizes (cs : List Char) : Option (List Int) :=
  ((Text.splitOn '[' cs).filter (!·.isEmpty)).mapM parseSize

/-- The type that a text names. -/
def parse (s : String) : Except TypeError Ty :=
  match Text.cut '[' s.toList with
  | none => if s.isEmpty then .error .emptyName else .ok (ofName s)
  | some ([], _) => .error .emptyName
  | some (name, sizes) =>
    match parseSizes sizes with
    | none => .error (.invalidArray s)
    | some ns => .ok (.array (ofName (String.ofList name)) ns)

end Ty

end RvBackend
