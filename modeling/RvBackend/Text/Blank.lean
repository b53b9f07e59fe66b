/-! # White space

`isBlank` is the white space of Unicode: the six ASCII blanks, the next-line and no-break
characters, and the spaces and separators above them. Words of an input and lines of an assembly
text are cut by it, so `trim` and `isBlank` are used by every reader of this library.

* `trim` removes the white space at both ends of a text and nothing else. -/

namespace RvBackend.Text

/-- The characters with the Unicode property `White_Space`. -/
def isBlank (c : Char) : Bool :=
  let n := c.toNat
  (0x09 ≤ n && n ≤ 0x0d) || n == 0x20 || n == 0x85 || n == 0xa0 || n == 0x1680 ||
    (0x2000 ≤ n && n ≤ 0x200a) || n == 0x2028 || n == 0x2029 || n == 0x202f || n == 0x205f ||
    n == 0x3000

/-- A text without the white space it starts with. -/
def trimLeft (cs : List Char) : List Char := cs.dropWhile isBlank

/-- A text without the white space it ends with. -/
def trimRight (cs : List Char) : List Char := (cs.reverse.dropWhile isBlank).reverse

/-- A text without the white space at its two ends. -/
def trim (cs : List Char) : List Char := trimRight (trimLeft cs)

end RvBackend.Text
