/-! # Texts as bytes

A text is stored as the bytes of its UTF-8 encoding. `utf8` gives these bytes; `readUtf8` goes the
other way and is total: a byte that belongs to no character stands for itself, so nothing is lost.
`textOfBytes` shows such a byte as the replacement character. -/

namespace RvBackend.Text

/-- The bytes of a text in UTF-8. -/
def utf8 (s : String) : List UInt8 := s.toUTF8.data.toList

/-- The character shown for a byte that is part of no character. -/
def replacement : Char := '\uFFFD'

/-- A byte in the middle of a character. -/
def isTail (b : UInt8) : Bool := 0x80 ≤ b && b ≤ 0xbf

/-- The number that the last six bits of some bytes spell behind the bits `acc`. -/
def tailBits (acc : Nat) (bs : List UInt8) : Nat :=
  bs.foldl (fun n b => n * 64 + (b.toNat - 0x80)) acc

/-- The character that starts with the byte `a`, followed by `rest`, and how many bytes of `rest` it
takes; the byte itself if it starts none. Overlong forms, surrogates and numbers above the last
character are refused by the range of the second byte. -/
def readChar (a : UInt8) (rest : List UInt8) : Except UInt8 Char × Nat :=
  if a < 0x80 then (.ok (Char.ofNat a.toNat), 0)
  else if 0xc2 ≤ a && a ≤ 0xdf then
    match rest with
    | b :: _ =>
      if isTail b then (.ok (Char.ofNat (tailBits (a.toNat - 0xc0) [b])), 1) else (.error a, 0)
    | _ => (.error a, 0)
  else if 0xe0 ≤ a && a ≤ 0xef then
    match rest with
    | b :: c :: _ =>
      let low : UInt8 := if a == 0xe0 then 0xa0 else 0x80
      let high : UInt8 := if a == 0xed then 0x9f else 0xbf
      if low ≤ b && b ≤ high && isTail c then
        (.ok (Char.ofNat (tailBits (a.toNat - 0xe0) [b, c])), 2)
      else (.error a, 0)
    | _ => (.error a, 0)
  else if 0xf0 ≤ a && a ≤ 0xf4 then
    match rest with
    | b :: c :: d :: _ =>
      let low : UInt8 := if a == 0xf0 then 0x90 else 0x80
      let high : UInt8 := if a == 0xf4 then 0x8f else 0xbf
      if low ≤ b && b ≤ high && isTail c && isTail d then
        (.ok (Char.ofNat (tailBits (a.toNat - 0xf0) [b, c, d])), 3)
      else (.error a, 0)
    | _ => (.error a, 0)
  else (.error a, 0)

/-- The characters and stray bytes of a byte list without its first `taken` bytes, behind the units
`acc`, which are in reverse order. -/
def readUtf8From (acc : List (Except UInt8 Char)) : Nat → List UInt8 → List (Except UInt8 Char)
  | _, [] => acc.reverse
  | taken + 1, _ :: rest => readUtf8From acc taken rest
  | 0, a :: rest =>
    let (unit, extra) := readChar a rest
    readUtf8From (unit :: acc) extra rest

/-- The characters of a byte list, a byte that belongs to none of them standing for itself. -/
def readUtf8 (bs : List UInt8) : List (Except UInt8 Char) := readUtf8From [] 0 bs

/-- The characters of a byte list, each stray byte shown as the replacement character. -/
def charsOfBytes (bs : List UInt8) : List Char :=
  (readUtf8 bs).map fun
    | .ok c => c
    | .error _ => replacement

/-- The text of a byte list, each stray byte shown as the replacement character. -/
def textOfBytes (bs : List UInt8) : String := String.ofList (charsOfBytes bs)

end RvBackend.Text
