import RvBackend.Text.Decimal
import RvBackend.Text.Printable
import RvBackend.Text.Utf8

/-! # Double-quoted text in messages

`quote` puts a text between double quotes so that it can be shown in one line: printable characters
stand for themselves, a quote and a backslash follow a backslash, the usual controls have a letter,
other ASCII controls and stray bytes are written `\x` with two digits, and the remaining characters
`\u` with four or `\U` with eight. -/

namespace RvBackend.Text

/-- One character between two marks, which are single or double quotes. -/
def quoteCharIn (mark c : Char) : List Char :=
  if c = mark then ['\\', mark]
  else if c = '\\' then ['\\', '\\']
  else if isPrintable c then [c]
  else
    let n := c.toNat
    if n == 0x07 then ['\\', 'a']
    else if n == 0x08 then ['\\', 'b']
    else if n == 0x0c then ['\\', 'f']
    else if n == 0x0a then ['\\', 'n']
    else if n == 0x0d then ['\\', 'r']
    else if n == 0x09 then ['\\', 't']
    else if n == 0x0b then ['\\', 'v']
    else if n < 0x20 || n == 0x7f then ['\\', 'x'] ++ (hex 2 n).toList
    else if n < 0x10000 then ['\\', 'u'] ++ (hex 4 n).toList
    else ['\\', 'U'] ++ (hex 8 n).toList

/-- One character between double quotes. -/
def quoteChar (c : Char) : List Char := quoteCharIn '"' c

/-- A character between single quotes. -/
def quoteSingle (c : Char) : String := String.ofList ('\'' :: quoteCharIn '\'' c ++ ['\''])

/-- One character or stray byte between double quotes. -/
def quoteUnit : Except UInt8 Char → List Char
  | .ok c => quoteChar c
  | .error b => ['\\', 'x'] ++ (hex 2 b.toNat).toList

/-- A text between double quotes. -/
def quote (s : String) : String :=
  String.ofList ('"' :: s.toList.flatMap quoteChar ++ ['"'])

/-- The bytes of a text between double quotes. -/
def quoteBytes (bs : List UInt8) : String :=
  String.ofList ('"' :: (readUtf8 bs).flatMap quoteUnit ++ ['"'])

end RvBackend.Text
