import RvBackend.Text.Blank
import RvBackend.Text.Printable
import RvBackend.Text.Quoted

/-! # Log records

A record has a level, a message and attributes. Its line gives each of them as `key=value`; a value
that could be misread is quoted. -/

namespace RvBackend

/-- How much a record matters. -/
inductive LogLevel where
  | debug
  | info
deriving DecidableEq, Repr

/-- One record. -/
structure LogRecord where
  level : LogLevel
  message : String
  attrs : List (String × String) := []
deriving DecidableEq, Repr

namespace LogRecord

/-- Characters that cannot stand in a value without quotes: blanks, control characters, the quote
and the equality sign, and beyond ASCII what is not printable. -/
def needsQuote (c : Char) : Bool :=
  if c.toNat < 0x80 then c.toNat < 0x20 || c = ' ' || c = '"' || c = '='
  else c = Text.replacement || Text.isBlank c || !Text.isPrintable c

/-- A value of an attribute. -/
def valueText (s : String) : String :=
  if s.isEmpty || s.any needsQuote then Text.quote s else s

/-- A list of texts as one value. -/
def listText (items : List String) : String := "[" ++ " ".intercalate items ++ "]"

/-- The name of a level. -/
def levelText : LogLevel → String
  | .debug => "DEBUG"
  | .info => "INFO"

/-- The line of a record. -/
def text (r : LogRecord) : String :=
  let attrs := r.attrs.map fun (key, value) => " " ++ valueText key ++ "=" ++ valueText value
  "level=" ++ levelText r.level ++ " msg=" ++ valueText r.message ++ String.join attrs ++ "\n"

/-- Whether a log of some level shows the record. -/
def isShown (level : LogLevel) (r : LogRecord) : Bool :=
  match level with
  | .debug => true
  | .info => r.level = .info

end LogRecord

/-- The lines of the records that a log of some level shows. -/
def logText (level : LogLevel) (records : List LogRecord) : String :=
  String.join ((records.filter (·.isShown level)).map LogRecord.text)

end RvBackend
