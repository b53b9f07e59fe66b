import RvBackend.Text.Decimal
import RvBackend.Toml.Value

/-! # Words of a settings file

Each function reads one kind of word at the front of a text and gives it with the text behind it, or
`none` if the text does not begin with a word of that kind. -/

namespace RvBackend.Toml

/-- Characters that may stand in a comment or in quotes: no control characters but the tab. -/
def isPlain (c : Char) : Bool := c = '\t' || (0x20 ≤ c.toNat && c.toNat ≠ 0x7f)

/-- Blanks within a line. -/
def isSpace (c : Char) : Bool := c = ' ' || c = '\t'

/-- The text behind the blanks it begins with. -/
def skipSpace (cs : List Char) : List Char := cs.dropWhile isSpace

/-- The text behind the end of a line. -/
def skipNewline : List Char → Option (List Char)
  | '\n' :: cs => some cs
  | '\r' :: '\n' :: cs => some cs
  | _ => none

/-- The text behind a comment whose hash has been read: the end of its line, or nothing. -/
def skipComment : List Char → Option (List Char)
  | [] => some []
  | '\n' :: cs => some ('\n' :: cs)
  | '\r' :: '\n' :: cs => some ('\n' :: cs)
  | c :: cs => if isPlain c then skipComment cs else none

/-- The text behind blanks, comments and ends of lines; `inComment` says whether it begins within a
comment. -/
def skipLines (inComment : Bool) : List Char → Option (List Char)
  | [] => some []
  | '\n' :: cs => skipLines false cs
  | '\r' :: '\n' :: cs => skipLines false cs
  | c :: cs =>
    if inComment then (if isPlain c then skipLines true cs else none)
    else if isSpace c then skipLines false cs
    else if c = '#' then skipLines true cs
    else some (c :: cs)

/-! ### Quoted text -/

/-- The character behind a backslash that stands for another one. -/
def escape? : Char → Option Char
  | '"' => some '"'
  | '\\' => some '\\'
  | 'b' => some '\x08'
  | 'f' => some '\x0c'
  | 'n' => some '\n'
  | 'r' => some '\r'
  | 't' => some '\t'
  | 'e' => some '\x1b'
  | _ => none

/-- The character of a number, unless it is too large or a surrogate. -/
def scalar? (n : Nat) : Option Char := if n.isValidChar then some (Char.ofNat n) else none

/-- The character with a number in base sixteen. -/
def hexChar? (digits : List Char) : Option Char := (Text.readDigits 16 0 digits).bind scalar?

/-- The rest of a text in double quotes, behind the characters `acc` in reverse order. -/
def scanBasic (acc : List Char) : List Char → Option (String × List Char)
  | [] => none
  | '"' :: cs => some (String.ofList acc.reverse, cs)
  | '\\' :: cs =>
    match cs with
    | 'u' :: a :: b :: c :: d :: cs => (hexChar? [a, b, c, d]).bind fun x => scanBasic (x :: acc) cs
    | 'U' :: a :: b :: c :: d :: e :: f :: g :: h :: cs =>
      (hexChar? [a, b, c, d, e, f, g, h]).bind fun x => scanBasic (x :: acc) cs
    | c :: cs => (escape? c).bind fun x => scanBasic (x :: acc) cs
    | [] => none
  | c :: cs => if isPlain c then scanBasic (c :: acc) cs else none

/-- The rest of a text in single quotes, behind the characters `acc` in reverse order. -/
def scanLiteral (acc : List Char) : List Char → Option (String × List Char)
  | [] => none
  | '\'' :: cs => some (String.ofList acc.reverse, cs)
  | c :: cs => if isPlain c then scanLiteral (c :: acc) cs else none

/-- The end of a text in three quotes, the three quotes being read: up to two more belong to the
text, and a third one is an error. -/
def closeQuotes (quote : Char) (acc : List Char) (cs : List Char) : Option (String × List Char) :=
  let more := (cs.takeWhile (· == quote)).length
  if more ≤ 2 then
    some (String.ofList (List.replicate more quote ++ acc).reverse, cs.drop more)
  else none

/-- Whether only blanks stand before the end of the line. -/
def endsLine (cs : List Char) : Bool := (skipNewline (skipSpace cs)).isSome

/-- The rest of a text in three double quotes. A backslash at the end of a line hides the blanks and
ends of lines behind it; `joining` says whether such blanks may follow. -/
def scanLongBasic (acc : List Char) (joining : Bool) : List Char → Option (String × List Char)
  | [] => none
  | '"' :: '"' :: '"' :: cs => closeQuotes '"' acc cs
  | '\r' :: '\n' :: cs => scanLongBasic (if joining then acc else '\n' :: '\r' :: acc) joining cs
  | '\\' :: cs =>
    if endsLine cs then scanLongBasic acc true cs
    else
      match cs with
      | 'u' :: a :: b :: c :: d :: cs =>
        (hexChar? [a, b, c, d]).bind fun x => scanLongBasic (x :: acc) false cs
      | 'U' :: a :: b :: c :: d :: e :: f :: g :: h :: cs =>
        (hexChar? [a, b, c, d, e, f, g, h]).bind fun x => scanLongBasic (x :: acc) false cs
      | c :: cs => (escape? c).bind fun x => scanLongBasic (x :: acc) false cs
      | [] => none
  | c :: cs =>
    if joining && (isSpace c || c = '\n') then scanLongBasic acc true cs
    else if isPlain c || c = '\n' then scanLongBasic (c :: acc) false cs
    else none

/-- The rest of a text in three single quotes. -/
def scanLongLiteral (acc : List Char) : List Char → Option (String × List Char)
  | [] => none
  | '\'' :: '\'' :: '\'' :: cs => closeQuotes '\'' acc cs
  | '\r' :: '\n' :: cs => scanLongLiteral ('\n' :: '\r' :: acc) cs
  | c :: cs => if isPlain c || c = '\n' then scanLongLiteral (c :: acc) cs else none

/-- The text behind an end of line right behind three opening quotes. -/
def skipFirstLine (cs : List Char) : List Char := (skipNewline cs).getD cs

/-- A text in quotes of any kind. -/
def scanQuoted : List Char → Option (String × List Char)
  | '"' :: '"' :: '"' :: cs => scanLongBasic [] false (skipFirstLine cs)
  | '\'' :: '\'' :: '\'' :: cs => scanLongLiteral [] (skipFirstLine cs)
  | '"' :: cs => scanBasic [] cs
  | '\'' :: cs => scanLiteral [] cs
  | _ => none

/-! ### Keys -/

/-- Characters of a key without quotes. -/
def isBare (c : Char) : Bool := c.isAlphanum || c = '-' || c = '_'

/-- Whether an escape stands in a text whose opening double quote has been read: a backslash comes
before the closing quote. -/
def hasEscape (cs : List Char) : Bool :=
  (cs.dropWhile fun c => c != '"' && c != '\\').head? == some '\\'

/-- One part of a key. -/
def scanKeyPart : List Char → Option (KeyPart × List Char)
  | '"' :: cs => (scanBasic [] cs).map fun (name, rest) => (⟨name, hasEscape cs⟩, rest)
  | '\'' :: cs => (scanLiteral [] cs).map fun (name, rest) => (⟨name, false⟩, rest)
  | cs =>
    match cs.span isBare with
    | ([], _) => none
    | (part, rest) => some (⟨String.ofList part, false⟩, rest)

/-- The further parts of a key, behind the parts `acc` in reverse order. Each takes a dot at least,
so `fuel` may be the length of the text. -/
def scanKeyRest : Nat → List KeyPart → List Char → Option (List KeyPart × List Char)
  | 0, acc, cs => some (acc.reverse, cs)
  | fuel + 1, acc, cs =>
    match skipSpace cs with
    | '.' :: cs => do
      let (part, rest) ← scanKeyPart (skipSpace cs)
      scanKeyRest fuel (part :: acc) rest
    | cs => some (acc.reverse, cs)

/-- The parts of a key, and the text behind the blanks that follow it. -/
def scanKey (cs : List Char) : Option (List KeyPart × List Char) := do
  let (part, rest) ← scanKeyPart cs
  scanKeyRest (rest.length + 1) [part] rest

/-! ### Numbers and dates -/

/-- Whether a date or a time begins here: digits with a colon in the third place or a minus sign in
the fifth. -/
def beginsDate (cs : List Char) : Bool :=
  match cs.span Char.isDigit with
  | (ds, c :: _) => (ds.length == 2 && c == ':') || (ds.length == 4 && c == '-')
  | (_, []) => false

/-- Characters of dates and times. -/
def isDateChar (c : Char) : Bool :=
  c.isDigit || c = '-' || c = '+' || c = ':' || c = '.' || c = 'T' || c = 't' || c = 'Z' || c = 'z'

/-- A date or a time. One blank may stand in it, with a digit behind; the character after that digit
belongs to it whatever it is, and says nothing about the form. -/
def scanDate (cs : List Char) : Option (Value × List Char) :=
  let (front, rest) := cs.span isDateChar
  let plain : Option (Value × List Char) := some (.date (.ofShape front) front, rest)
  match rest with
  | ' ' :: d :: more =>
    if !d.isDigit then plain
    else
      let next := more.take 1
      let (back, behind) := (more.drop 1).span isDateChar
      let word (next : List Char) : List Char := front ++ ' ' :: d :: next ++ back
      if next.any (0x80 ≤ ·.toNat) then none
      else some (.date (.ofShape (word (next.map fun _ => '0'))) (word next), behind)
  | _ => plain

/-- Characters of a decimal number; a point and the mark of an exponent make it a fraction. -/
def isNumberChar (c : Char) : Bool :=
  c.isDigit || c = '+' || c = '-' || c = '_' || c = '.' || c = 'e' || c = 'E'

/-- A number in base ten; `inf` and `nan` may end it. -/
def scanDecimal (cs : List Char) : Option (Value × List Char) :=
  match cs.span isNumberChar with
  | (_, 'i' :: rest) =>
    match rest with
    | 'n' :: 'f' :: rest => some (.other, rest)
    | _ => none
  | (_, 'n' :: rest) =>
    match rest with
    | 'a' :: 'n' :: rest => some (.other, rest)
    | _ => none
  | ([], _) => none
  | (ds, rest) =>
    if ds.any fun c => c = '.' || c = 'e' || c = 'E' then some (.other, rest)
    else some (.integer ds, rest)

/-- The digits of a base, with underscores between them. -/
def isBaseDigit (base : Nat) (c : Char) : Bool := (Text.digitBelow? base c).isSome || c = '_'

/-- A number. A zero stands alone unless a base, a point or an exponent follows it. -/
def scanNumber : List Char → Option (Value × List Char)
  | '0' :: x :: c :: rest =>
    let based (base : Nat) : Option (Value × List Char) :=
      let (ds, rest) := (c :: rest).span (isBaseDigit base)
      some (.integer ('0' :: x :: ds), rest)
    if x = 'x' then based 16
    else if x = 'o' then based 8
    else if x = 'b' then based 2
    else if x = '.' ∨ x = 'e' ∨ x = 'E' then scanDecimal ('0' :: x :: c :: rest)
    else some (.integer ['0'], x :: c :: rest)
  | cs => scanDecimal cs

/-- A number, a date or a time. -/
def scanNumberOrDate (cs : List Char) : Option (Value × List Char) :=
  if beginsDate cs then scanDate cs else scanNumber cs

end RvBackend.Toml
