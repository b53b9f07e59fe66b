import RvBackend.Json.Value
import RvBackend.Text.Decimal

/-! # JSON tokens

The tokens of a JSON text: brackets, colon, comma, and the strings, numbers and words that are
values of their own. `Token.scan` cuts a text into tokens; blanks, tabs and line ends between them
are dropped.

* `scanString`: the characters of a string up to its closing quote. Control characters have to be
  escaped; an escaped surrogate without its partner becomes the replacement character.
* `scanNumber`: the longest beginning of a text that is a number. -/

namespace RvBackend.Json

/-- A token of a JSON text. -/
inductive Token where
  | beginObject
  | endObject
  | beginArray
  | endArray
  | colon
  | comma
  | null
  | bool (b : Bool)
  | number (digits : String)
  | string (s : String)
deriving DecidableEq, Repr

/-- A token and where it stands. -/
structure Lexeme where
  token : Token
  extent : Extent

/-- The white space between tokens. -/
def isSpace (c : Char) : Bool := c == ' ' || c == '\t' || c == '\n' || c == '\r'

/-- The number of four hexadecimal digits at the beginning of a text, and the text behind them. -/
def fourDigits : List Char → Option (Nat × List Char)
  | a :: b :: c :: d :: rest => (Text.readDigits 16 0 [a, b, c, d]).map fun n => (n, rest)
  | _ => none

/-- The first half of a surrogate pair. -/
def isHighSurrogate (n : Nat) : Bool := 0xd800 ≤ n && n < 0xdc00

/-- The second half of a surrogate pair. -/
def isLowSurrogate (n : Nat) : Bool := 0xdc00 ≤ n && n < 0xe000

/-- The character of a surrogate pair. -/
def joinSurrogates (high low : Nat) : Char :=
  Char.ofNat (0x10000 + (high - 0xd800) * 0x400 + (low - 0xdc00))

/-- The character written by `\u` and the number `n`, in front of `rest`: the next escape belongs to
it if the two make a surrogate pair. -/
def unitChar (n : Nat) (rest : List Char) : Char × List Char :=
  if isHighSurrogate n then
    match rest with
    | '\\' :: 'u' :: digits =>
      match fourDigits digits with
      | some (low, rest') =>
        if isLowSurrogate low then (joinSurrogates n low, rest') else (Char.ofNat 0xfffd, rest)
      | none => (Char.ofNat 0xfffd, rest)
    | _ => (Char.ofNat 0xfffd, rest)
  else if isLowSurrogate n then (Char.ofNat 0xfffd, rest)
  else (Char.ofNat n, rest)

/-- The character behind a backslash that stands for one of the short escapes. -/
def shortEscape? (c : Char) : Option Char :=
  if c == '"' || c == '\\' || c == '/' then some c
  else if c == 'b' then some (Char.ofNat 0x08)
  else if c == 'f' then some (Char.ofNat 0x0c)
  else if c == 'n' then some '\n'
  else if c == 'r' then some '\r'
  else if c == 't' then some '\t'
  else none

/-- The first character of the inside of a string, and the text behind it. -/
def stringChar : List Char → Option (Char × List Char)
  | '\\' :: 'u' :: digits => (fourDigits digits).map fun (n, rest) => unitChar n rest
  | '\\' :: c :: rest => (shortEscape? c).map fun x => (x, rest)
  | c :: rest => if c.toNat < 0x20 || c == '\\' || c == '"' then none else some (c, rest)
  | [] => none

theorem fourDigits_length {cs rest : List Char} {n : Nat} (h : fourDigits cs = some (n, rest)) :
    rest.length + 4 = cs.length := by
  unfold fourDigits at h
  split at h
  · obtain ⟨m, -, hm⟩ := Option.map_eq_some_iff.1 h
    simp only [Prod.mk.injEq] at hm
    simp [← hm.2]
  · cases h

theorem unitChar_length (n : Nat) (rest : List Char) :
    (unitChar n rest).2.length ≤ rest.length := by
  unfold unitChar
  split
  · split
    · rename_i digits
      split
      · rename_i low rest' h
        have := fourDigits_length h
        split
        · simp only [List.length_cons]
          omega
        · exact Nat.le_refl _
      · exact Nat.le_refl _
    · exact Nat.le_refl _
  · split <;> exact Nat.le_refl _

/-- A character of a string takes at least one character of the text. -/
theorem stringChar_length {cs rest : List Char} {c : Char} (h : stringChar cs = some (c, rest)) :
    rest.length < cs.length := by
  unfold stringChar at h
  split at h
  · rename_i digits
    obtain ⟨⟨n, r⟩, hn, hm⟩ := Option.map_eq_some_iff.1 h
    have h4 := fourDigits_length hn
    have hu := unitChar_length n r
    change unitChar n r = (c, rest) at hm
    rw [hm] at hu
    simp only [List.length_cons]
    simp only at hu
    omega
  · obtain ⟨x, -, hx⟩ := Option.map_eq_some_iff.1 h
    simp only [Prod.mk.injEq] at hx
    simp only [← hx.2, List.length_cons]
    omega
  · split at h
    · cases h
    · simp only [Option.some.injEq, Prod.mk.injEq] at h
      simp [← h.2]
  · cases h

/-- The characters of a string whose opening quote has been read, behind the characters `acc` in
reverse order, and the text behind its closing quote. -/
def scanString (acc : List Char) (cs : List Char) : Option (String × List Char) :=
  match cs with
  | '"' :: rest => some (String.ofList acc.reverse, rest)
  | cs =>
    match _h : stringChar cs with
    | some (c, rest) => scanString (c :: acc) rest
    | none => none
termination_by cs.length
decreasing_by exact stringChar_length _h

/-- The digits a text begins with, and the text behind them. -/
def spanDigits (cs : List Char) : List Char × List Char := cs.span Char.isDigit

/-- An optional fraction: a point and at least one digit. -/
def scanFraction : List Char → List Char × List Char
  | '.' :: cs =>
    match spanDigits cs with
    | ([], _) => ([], '.' :: cs)
    | (ds, rest) => ('.' :: ds, rest)
  | cs => ([], cs)

/-- An optional exponent: the letter, an optional sign and at least one digit. -/
def scanExponent : List Char → List Char × List Char
  | e :: cs =>
    if e == 'e' || e == 'E' then
      let (sign, ds) :=
        match cs with
        | '+' :: r => (['+'], r)
        | '-' :: r => (['-'], r)
        | r => ([], r)
      match spanDigits ds with
      | ([], _) => ([], e :: cs)
      | (ds, rest) => (e :: sign ++ ds, rest)
    else ([], e :: cs)
  | [] => ([], [])

/-- The integer part of a number: a zero alone, or digits without a leading zero. -/
def scanInteger : List Char → Option (List Char × List Char)
  | '0' :: cs => some (['0'], cs)
  | cs =>
    match spanDigits cs with
    | ([], _) => none
    | (ds, rest) => some (ds, rest)

/-- The longest number that a text begins with, and the text behind it. -/
def scanNumber (cs : List Char) : Option (String × List Char) :=
  let (sign, cs) :=
    match cs with
    | '-' :: r => (['-'], r)
    | r => ([], r)
  (scanInteger cs).map fun (whole, r) =>
    let (fraction, r) := scanFraction r
    let (exponent, r) := scanExponent r
    (String.ofList (sign ++ whole ++ fraction ++ exponent), r)

/-- The token a text begins with, and the text behind it. -/
def scanToken : List Char → Option (Token × List Char)
  | '\x7b' :: cs => some (.beginObject, cs)
  | '\x7d' :: cs => some (.endObject, cs)
  | '[' :: cs => some (.beginArray, cs)
  | ']' :: cs => some (.endArray, cs)
  | ':' :: cs => some (.colon, cs)
  | ',' :: cs => some (.comma, cs)
  | '"' :: cs => (scanString [] cs).map fun (s, rest) => (.string s, rest)
  | 'n' :: 'u' :: 'l' :: 'l' :: cs => some (.null, cs)
  | 't' :: 'r' :: 'u' :: 'e' :: cs => some (.bool true, cs)
  | 'f' :: 'a' :: 'l' :: 's' :: 'e' :: cs => some (.bool false, cs)
  | cs => (scanNumber cs).map fun (digits, rest) => (.number digits, rest)

/-- The tokens of a text behind the tokens `acc`, which are in reverse order. Each step takes a
character at least; `fuel` is the number of characters that are left to take. -/
def scanFrom : Nat → List Lexeme → List Char → Option (List Lexeme)
  | _, acc, [] => some acc.reverse
  | 0, _, _ :: _ => none
  | fuel + 1, acc, c :: cs =>
    if isSpace c then scanFrom fuel acc cs
    else
      match scanToken (c :: cs) with
      | some (token, rest) => scanFrom fuel (⟨token, c :: cs, rest⟩ :: acc) rest
      | none => none

/-- The tokens of a text, `none` if some part of it is no token. -/
def Token.scan (cs : List Char) : Option (List Lexeme) := scanFrom cs.length [] cs

end RvBackend.Json
