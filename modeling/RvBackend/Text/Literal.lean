import RvBackend.Text.Decimal

/-! # Integer literals with a base

An integer literal has an optional sign and digits in a base that its beginning names: `0x`, `0o`
and `0b` (either case) stand for sixteen, eight and two, a leading `0` alone for eight, and anything
else for ten. Single underscores may stand between two digits and behind such a beginning.

* `readLiteral` reads a literal that fits a signed word, and tells a text that is no literal
  (`malformed`) from one whose value is too large (`outOfRange`). A text is too large as soon as the
  digits read so far are, whatever follows them. -/

namespace RvBackend.Text

/-- Why a text is not an integer of the wanted size. -/
inductive LiteralError where
  | malformed
  | outOfRange
deriving DecidableEq, Repr

/-- The base of an unsigned literal, and the text behind its beginning. -/
def splitBase : List Char → Nat × List Char
  | '0' :: x :: c :: cs =>
    if x = 'b' ∨ x = 'B' then (2, c :: cs)
    else if x = 'o' ∨ x = 'O' then (8, c :: cs)
    else if x = 'x' ∨ x = 'X' then (16, c :: cs)
    else (8, x :: c :: cs)
  | '0' :: cs => (8, cs)
  | cs => (10, cs)

/-- The magnitude of the digits `cs` behind the digits `acc`, underscores aside. -/
def readMagnitude (b limit : Nat) (acc : Nat) : List Char → Except LiteralError Nat
  | [] => .ok acc
  | c :: cs =>
    if c = '_' then readMagnitude b limit acc cs
    else
      match digitBelow? b c with
      | none => .error .malformed
      | some d =>
        if acc * b + d < limit then readMagnitude b limit (acc * b + d) cs
        else .error .outOfRange

/-- Underscores stand one at a time behind a digit (`digit` says whether one precedes `cs`) and in
front of another. -/
def underscoresSeparate (digit : Bool) : List Char → Bool
  | [] => true
  | '_' :: [] => false
  | '_' :: c :: cs => digit && c != '_' && underscoresSeparate true cs
  | _ :: cs => underscoresSeparate true cs

/-- An unsigned literal below `2 ^ 64`. -/
def readUnsigned (cs : List Char) : Except LiteralError Nat :=
  match cs with
  | [] => .error .malformed
  | _ =>
    let (b, ds) := splitBase cs
    match readMagnitude b (wordCount 64) 0 ds with
    | .error e => .error e
    | .ok n => if underscoresSeparate (b != 10) ds then .ok n else .error .malformed

/-- A literal that fits a signed word of `bits` bits, at most 64. -/
def readLiteral (bits : Nat) (cs : List Char) : Except LiteralError Int :=
  let (negative, ds) := readSign cs
  match readUnsigned ds with
  | .error e => .error e
  | .ok n => if inWord bits (signed negative n) then .ok (signed negative n) else .error .outOfRange

end RvBackend.Text
