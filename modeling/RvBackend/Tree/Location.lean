import RvBackend.Text.Decimal

/-! # Places in a source file -/

namespace RvBackend

/-- A line and a column of a source file. -/
structure Location where
  line : Int := 0
  col : Int := 0
deriving DecidableEq, Repr, Inhabited

/-- The line and the column with a colon between them. -/
def Location.text (l : Location) : String := Text.decimal l.line ++ ":" ++ Text.decimal l.col

end RvBackend
