import RvBackend.Text.Utf8

/-! # Strings of the assembler

A string literal of the assembler holds printable ASCII. `escape` writes any byte so: a quote and a
backslash behind a backslash, line feed and tab as `\n` and `\t`, every byte outside printable ASCII
as `\x` and two upper-case hexadecimal digits. -/

namespace RvBackend.Text

/-- An upper-case hexadecimal digit. -/
def upperHexDigit (d : Nat) : Char :=
  if d < 10 then Char.ofNat (0x30 + d) else Char.ofNat (0x41 + (d - 10))

/-- One byte inside a double-quoted string of the assembler. -/
def escapeByte (b : UInt8) : List Char :=
  if b == 0x22 then ['\\', '"']
  else if b == 0x5c then ['\\', '\\']
  else if b == 0x0a then ['\\', 'n']
  else if b == 0x09 then ['\\', 't']
  else if 0x20 ≤ b && b < 0x7f then [Char.ofNat b.toNat]
  else ['\\', 'x', upperHexDigit (b.toNat / 16), upperHexDigit (b.toNat % 16)]

/-- The characters between the quotes of an assembler string for these bytes. -/
def escape (bs : List UInt8) : List Char := bs.flatMap escapeByte

/-- The characters between the quotes of an assembler string for this text. -/
def escapeText (s : String) : String := String.ofList (escape (utf8 s))

end RvBackend.Text
