import RvBackend.Text.Blank
import RvBackend.Text.Decimal
import RvBackend.Text.Utf8

/-! # Input of the machine

The input is a text of words with blanks between them. A word that does not fit the reader's buffer
together with what follows it is refused; the next attempt hands out what the buffer holds, and then
the input is used up.

* `Input.next` gives the next word.
* `leadingInteger?` is the integer that a word begins with. -/

namespace RvBackend.Machine

/-- What is left of the input. -/
inductive Input where
  /-- There is no input at all. -/
  | absent
  | text (rest : List Char)
  /-- A word was refused; the buffer still holds these bytes of it. -/
  | held (bytes : List UInt8)
  /-- A word was refused, and the buffer is empty. -/
  | refused
deriving Inhabited

/-- Why there is no integer. -/
inductive InputFault where
  | exhausted
  | tooLong
  | notInteger (word : List UInt8)
deriving DecidableEq, Repr

namespace Input

/-- The bytes of a reader's buffer. -/
def bufferSize : Nat := 65536

/-- The bytes that a character takes. -/
def width (c : Char) : Nat := c.utf8Size

/-- The next word, or why there is none, and what is left of the input. -/
def next : Input → Except InputFault (List UInt8) × Input
  | .absent => (.error .exhausted, .absent)
  | .held bytes => (.ok bytes, .refused)
  | .refused => (.error .tooLong, .refused)
  | .text cs =>
    let (word, rest) := (Text.trimLeft cs).span (!Text.isBlank ·)
    let bytes := Text.utf8 (String.ofList word)
    let behind := (rest.head?.map width).getD 1
    if word.isEmpty then (.error .exhausted, .text [])
    else if bytes.length + behind ≤ bufferSize then (.ok bytes, .text (rest.drop 1))
    else (.error .tooLong, .held ((Text.utf8 (String.ofList (word ++ rest))).take bufferSize))

end Input

/-- The integer that a word begins with: an optional sign and digits, in 64 bits. -/
def leadingInteger? (word : List Char) : Option Int :=
  let (negative, cs) := Text.readSign word
  let digits := cs.takeWhile Char.isDigit
  if digits.isEmpty then none
  else ((Text.readDigits 10 0 digits).map (Text.signed negative)).filter (Text.inWord 64)

/-- The next integer, cut to a word, or why there is none, and what is left of the input. -/
def Input.nextInteger (input : Input) : Except InputFault Int32 × Input :=
  match input.next with
  | (.error e, rest) => (.error e, rest)
  | (.ok word, rest) =>
    match leadingInteger? (Text.charsOfBytes word) with
    | some n => (.ok (Int32.ofInt n), rest)
    | none => (.error (.notInteger word), rest)

end RvBackend.Machine
