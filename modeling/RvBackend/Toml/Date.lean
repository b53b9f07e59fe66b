import RvBackend.Text.Decimal

/-! # Dates and times

A date is `YYYY-MM-DD` and a time `HH:MM:SS`, perhaps with a fraction. Both together have a `T` or a
blank between them, and an offset from universal time, `Z` or `±HH:MM`, may follow them.

* `DateForm.ofShape` tells the form of a word by the signs in it, before anything is checked.
* `DateForm.accepts` is the check of a word against its form. -/

namespace RvBackend.Toml

/-- The forms of dates and times. -/
inductive DateForm where
  | date
  | time
  | dateTime
  /-- A date and a time with an offset. -/
  | instant
deriving DecidableEq, Repr

/-- The form of a word by its signs. A minus sign stands in dates, and from the ninth place on it is
that of an offset. -/
def DateForm.ofShape (cs : List Char) : DateForm :=
  let hasDate := cs.contains '-'
  let hasTime := cs.any fun c => c = 'T' || c = 't' || c = ':' || c = '.' || c = ' '
  let hasOffset := cs.any (fun c => c = '+' || c = 'Z' || c = 'z') || (cs.drop 8).contains '-'
  if !hasTime then .date
  else if !hasDate then .time
  else if hasOffset then .instant
  else .dateTime

/-- Every fourth year is a leap year; of the full centuries every fourth one is. -/
def isLeapYear (year : Nat) : Bool := year % 4 == 0 && (year % 100 != 0 || year % 400 == 0)

/-- The number of days of a month. -/
def daysIn (year month : Nat) : Nat :=
  if month = 2 then (if isLeapYear year then 29 else 28)
  else if month = 4 ∨ month = 6 ∨ month = 9 ∨ month = 11 then 30
  else 31

/-- The number of some decimal digits. -/
def digits? (cs : List Char) : Option Nat := Text.readDigits 10 0 cs

/-- Whether two digits are a number up to `most`. -/
def isUpTo (most : Nat) (a b : Char) : Bool := (digits? [a, b]).any (· ≤ most)

/-- Whether a text is a day of the calendar. -/
def isDate : List Char → Bool
  | [y₁, y₂, y₃, y₄, '-', m₁, m₂, '-', d₁, d₂] =>
    match digits? [y₁, y₂, y₃, y₄], digits? [m₁, m₂], digits? [d₁, d₂] with
    | some year, some month, some day =>
      1 ≤ month && month ≤ 12 && 1 ≤ day && day ≤ daysIn year month
    | _, _, _ => false
  | _ => false

/-- The text behind a fraction of a second, if there is one. -/
def skipFraction : List Char → Option (List Char)
  | '.' :: cs =>
    match cs.span Char.isDigit with
    | ([], _) => none
    | (_, rest) => some rest
  | cs => some cs

/-- The text behind a time of day. A leap second is the second 60. -/
def skipTime : List Char → Option (List Char)
  | h₁ :: h₂ :: ':' :: m₁ :: m₂ :: ':' :: s₁ :: s₂ :: rest =>
    if isUpTo 23 h₁ h₂ && isUpTo 59 m₁ m₂ && isUpTo 60 s₁ s₂ then skipFraction rest else none
  | _ => none

/-- The text behind a date and a time. -/
def skipDateTime (cs : List Char) : Option (List Char) :=
  match cs.drop 10 with
  | c :: rest =>
    if isDate (cs.take 10) && (c = 'T' || c = 't' || c = ' ') then skipTime rest else none
  | [] => none

/-- Whether a text is an offset from universal time. -/
def isOffset : List Char → Bool
  | ['Z'] => true
  | ['z'] => true
  | [sign, h₁, h₂, ':', m₁, m₂] => (sign = '+' || sign = '-') && isUpTo 23 h₁ h₂ && isUpTo 59 m₁ m₂
  | _ => false

/-- Whether a word is right for its form. -/
def DateForm.accepts (form : DateForm) (cs : List Char) : Bool :=
  match form with
  | .date => isDate cs
  | .time => skipTime cs == some []
  | .dateTime => skipDateTime cs == some []
  | .instant => (skipDateTime cs).any isOffset

end RvBackend.Toml
