/-! # Names without regard to case

Names that matter are in ASCII. Of all other letters only those count whose lower case, or whose
class of letters that differ in case alone, has a letter of ASCII in it, and where texts are
compared byte by byte, those whose lower case takes another number of bytes.

* `lower`: a text in lower case, as far as that matters.
* `fold`: equal for two texts that differ in case alone. -/

namespace RvBackend.Text

/-- The letters beyond ASCII whose lower case takes another number of bytes in UTF-8, with their
lower case, by their numbers in Unicode 17. -/
def resizedLetters : List (Nat × Nat) := [
  (0x130, 0x69), (0x23a, 0x2c65), (0x23e, 0x2c66), (0x1e9e, 0xdf), (0x2126, 0x3c9), (0x212a, 0x6b),
  (0x212b, 0xe5), (0x2c62, 0x26b), (0x2c64, 0x27d), (0x2c6d, 0x251), (0x2c6e, 0x271),
  (0x2c6f, 0x250), (0x2c70, 0x252), (0x2c7e, 0x23f), (0x2c7f, 0x240), (0xa78d, 0x265),
  (0xa7aa, 0x266), (0xa7ab, 0x25c), (0xa7ac, 0x261), (0xa7ad, 0x26c), (0xa7ae, 0x26a),
  (0xa7b0, 0x29e), (0xa7b1, 0x287), (0xa7b2, 0x29d), (0xa7c5, 0x282), (0xa7cb, 0x264),
  (0xa7dc, 0x19b)]

/-- A character in lower case. A letter beyond ASCII stays as it is if its lower case is of the same
size. -/
def lowerChar (c : Char) : Char := ((resizedLetters.lookup c.toNat).map Char.ofNat).getD c.toLower

/-- A text in lower case. -/
def lower (s : String) : String := s.map lowerChar

/-- One representative of the characters that differ from `c` in case alone: the Kelvin sign goes
with `k` and the long s with `s`. -/
def foldChar (c : Char) : Char :=
  if c = '\u212a' then 'k' else if c = '\u017f' then 's' else c.toLower

/-- One representative of the texts that differ from a text in case alone. -/
def fold (s : String) : String := s.map foldChar

end RvBackend.Text
