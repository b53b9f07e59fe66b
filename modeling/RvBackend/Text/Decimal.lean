/-! # Integers in decimal

`decimal` writes an integer with the fewest digits and a minus sign if it is negative; `readDecimal`
takes an optional sign and at least one digit. `inWord` is the range of a signed machine word. -/

namespace RvBackend.Text

/-- The character of a digit below sixteen, letters in lower case. -/
def digitChar (d : Nat) : Char :=
  if d < 10 then Char.ofNat (0x30 + d) else Char.ofNat (0x61 + (d - 10))

/-- The digits of a natural number in base `b`, the most significant one first. -/
def digitsOf (b n : Nat) : List Char :=
  if _h : b < 2 ∨ n < b then [digitChar n] else digitsOf b (n / b) ++ [digitChar (n % b)]
termination_by n
decreasing_by exact Nat.div_lt_self (by omega) (by omega)

/-- The characters of an integer written in decimal. -/
def decimalChars : Int → List Char
  | .ofNat n => digitsOf 10 n
  | .negSucc n => '-' :: digitsOf 10 (n + 1)

/-- An integer written in decimal. -/
def decimal (n : Int) : String := String.ofList (decimalChars n)

/-- A natural number in hexadecimal, filled up with zeros to `width` digits. -/
def hex (width n : Nat) : String :=
  let ds := digitsOf 16 n
  String.ofList (List.replicate (width - ds.length) '0' ++ ds)

/-- The value of a digit in any base up to thirty-six. -/
def digitValue? (c : Char) : Option Nat :=
  let n := c.toNat
  if 0x30 ≤ n && n ≤ 0x39 then some (n - 0x30)
  else if 0x61 ≤ n && n ≤ 0x7a then some (n - 0x61 + 10)
  else if 0x41 ≤ n && n ≤ 0x5a then some (n - 0x41 + 10)
  else none

/-- The value of a digit of base `b`. -/
def digitBelow? (b : Nat) (c : Char) : Option Nat :=
  (digitValue? c).filter (· < b)

/-- The number that `cs` adds to the digits `acc` read before it in base `b`. -/
def readDigits (b : Nat) (acc : Nat) : List Char → Option Nat
  | [] => some acc
  | c :: cs => (digitBelow? b c).bind fun d => readDigits b (acc * b + d) cs

/-- An optional sign in front of a text: whether it is a minus, and the text behind it. -/
def readSign : List Char → Bool × List Char
  | '-' :: cs => (true, cs)
  | '+' :: cs => (false, cs)
  | cs => (false, cs)

/-- The integer of a magnitude and a sign. -/
def signed (negative : Bool) (n : Nat) : Int := if negative then -(n : Int) else n

/-- The number of words of `bits` bits. -/
def wordCount (bits : Nat) : Nat := Nat.pow 2 bits

/-- The integers of a signed word of `bits` bits. -/
def inWord (bits : Nat) (n : Int) : Bool :=
  -(wordCount (bits - 1) : Int) ≤ n && n < wordCount (bits - 1)

/-- An integer written in decimal, with an optional sign and any number of leading zeros. -/
def readDecimal (cs : List Char) : Option Int :=
  match readSign cs with
  | (_, []) => none
  | (negative, ds) => (readDigits 10 0 ds).map (signed negative)

/-- A decimal integer that fits a signed word of 64 bits. -/
def readInt64 (cs : List Char) : Option Int := (readDecimal cs).filter (inWord 64)

end RvBackend.Text
