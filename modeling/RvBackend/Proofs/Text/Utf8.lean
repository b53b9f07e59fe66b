import Mathlib.Tactic
import RvBackend.Text.Utf8

/-! # Texts and their bytes

The bytes of a text are read back as its characters, whatever the text.

* `readChar_encode`: the first byte of a character tells how many follow, and they spell the
  character.
* `charsOfBytes_utf8`: so it is for a whole text. -/

namespace RvBackend.Text

theorem utf8_eq_flatMap (s : String) : utf8 s = s.toList.flatMap String.utf8EncodeChar := by
  have hencode : s.toUTF8 = s.toList.utf8Encode := by simp
  rw [utf8, hencode]
  simp [List.utf8Encode]

theorem utf8_append (s s' : String) : utf8 (s ++ s') = utf8 s ++ utf8 s' := by
  rw [utf8_eq_flatMap, utf8_eq_flatMap, utf8_eq_flatMap, String.toList_append, List.flatMap_append]

/-! ### One character -/

theorem within_iff {low high a : UInt8} :
    (low ≤ a && a ≤ high) = true ↔ low.toNat ≤ a.toNat ∧ a.toNat ≤ high.toNat := by
  simp [UInt8.le_iff_toNat_le]

theorem isTail_iff {b : UInt8} : isTail b = true ↔ 0x80 ≤ b.toNat ∧ b.toNat ≤ 0xbf := within_iff

section

variable {a b c d : UInt8} {rest : List UInt8}

theorem readChar_one (ha : a.toNat < 0x80) : readChar a rest = (.ok (Char.ofNat a.toNat), 0) := by
  have hascii : a < 0x80 := UInt8.lt_iff_toNat_lt.mpr ha
  unfold readChar
  rw [if_pos hascii]

theorem not_ascii (ha : 0x80 ≤ a.toNat) : ¬ a < 0x80 := by
  intro h
  have hlt : a.toNat < 0x80 := UInt8.lt_iff_toNat_lt.mp h
  omega

theorem readChar_two (ha : 0xc2 ≤ a.toNat ∧ a.toNat ≤ 0xdf) (hb : isTail b = true) :
    readChar a (b :: rest) = (.ok (Char.ofNat (tailBits (a.toNat - 0xc0) [b])), 1) := by
  have htwo : (0xc2 ≤ a && a ≤ 0xdf) = true := within_iff.mpr ha
  unfold readChar
  rw [if_neg (not_ascii (by omega)), if_pos htwo]
  simp only [hb, if_true]

/-- The second byte is a byte of the middle, and some first bytes narrow its range. -/
theorem second_within {first last low high : UInt8} (hb : isTail b = true)
    (hlow : a = first → low.toNat ≤ b.toNat) (hhigh : a = last → b.toNat ≤ high.toNat) :
    ((if a == first then low else 0x80) ≤ b && b ≤ (if a == last then high else 0xbf)) = true := by
  have htail := isTail_iff.mp hb
  rw [within_iff]
  simp only [beq_iff_eq]
  constructor
  · split_ifs with h
    · exact hlow h
    · exact htail.1
  · split_ifs with h
    · exact hhigh h
    · exact htail.2

theorem not_within {low high : UInt8} (h : high.toNat < a.toNat) : ¬ (low ≤ a && a ≤ high) = true :=
  fun hwithin => absurd (within_iff.mp hwithin).2 (not_le.mpr h)

theorem readChar_three (ha : 0xe0 ≤ a.toNat ∧ a.toNat ≤ 0xef) (hb : isTail b = true)
    (hlow : a = 0xe0 → 0xa0 ≤ b.toNat) (hhigh : a = 0xed → b.toNat ≤ 0x9f) (hc : isTail c = true) :
    readChar a (b :: c :: rest) = (.ok (Char.ofNat (tailBits (a.toNat - 0xe0) [b, c])), 2) := by
  have htwo : (0xdf : UInt8).toNat < a.toNat := show 0xdf < a.toNat by omega
  have hthree : (0xe0 ≤ a && a ≤ 0xef) = true := within_iff.mpr ha
  have hsecond :
      ((if a == 0xe0 then 0xa0 else 0x80) ≤ b && b ≤ (if a == 0xed then 0x9f else 0xbf)) = true :=
    second_within hb hlow hhigh
  unfold readChar
  rw [if_neg (not_ascii (by omega)), if_neg (not_within htwo), if_pos hthree]
  simp only [hsecond, hc, Bool.and_self, if_true]

theorem readChar_four (ha : 0xf0 ≤ a.toNat ∧ a.toNat ≤ 0xf4) (hb : isTail b = true)
    (hlow : a = 0xf0 → 0x90 ≤ b.toNat) (hhigh : a = 0xf4 → b.toNat ≤ 0x8f) (hc : isTail c = true)
    (hd : isTail d = true) :
    readChar a (b :: c :: d :: rest) = (.ok (Char.ofNat (tailBits (a.toNat - 0xf0) [b, c, d])),
      3) := by
  have htwo : (0xdf : UInt8).toNat < a.toNat := show 0xdf < a.toNat by omega
  have hthree : (0xef : UInt8).toNat < a.toNat := show 0xef < a.toNat by omega
  have hfour : (0xf0 ≤ a && a ≤ 0xf4) = true := within_iff.mpr ha
  have hsecond :
      ((if a == 0xf0 then 0x90 else 0x80) ≤ b && b ≤ (if a == 0xf4 then 0x8f else 0xbf)) = true :=
    second_within hb hlow hhigh
  unfold readChar
  rw [if_neg (not_ascii (by omega)), if_neg (not_within htwo), if_neg (not_within hthree),
    if_pos hfour]
  simp only [hsecond, hc, hd, Bool.and_self, if_true]

end

theorem toNat_byte {n : ℕ} (h : n < 256) : (UInt8.ofNat n).toNat = n := by
  rw [UInt8.toNat_ofNat']
  exact Nat.mod_eq_of_lt h

theorem isTail_byte (n : ℕ) : isTail (UInt8.ofNat (n % 64 + 128)) = true := by
  rw [isTail_iff, toNat_byte (by omega)]
  omega

theorem toNat_of_byte_eq {n m : ℕ} (hn : n < 256) (hm : m < 256)
    (h : UInt8.ofNat n = UInt8.ofNat m) : n = m := by
  have hnat := congrArg UInt8.toNat h
  rwa [toNat_byte hn, toNat_byte hm] at hnat

/-- The bytes of a character are read as that character. -/
theorem readChar_encode (c : Char) (rest : List UInt8) : ∃ a bs, String.utf8EncodeChar c = a :: bs ∧
    readChar a (bs ++ rest) = (.ok c, bs.length) := by
  -- the numbers of characters leave out the surrogates
  have hvalid : c.toNat < 0xd800 ∨ 0xdfff < c.toNat ∧ c.toNat < 0x110000 := c.valid
  have hv : c.val.toNat = c.toNat := rfl
  have hchar : ∀ n, n = c.toNat → Char.ofNat n = c := fun n h => h ▸ Char.ofNat_toNat c
  simp only [String.utf8EncodeChar, hv]
  split_ifs with h1 h2 h3
  · refine ⟨_, _, rfl, ?_⟩
    have hbyte : (UInt8.ofNat c.toNat).toNat = c.toNat := toNat_byte (by omega)
    rw [readChar_one (by omega), hchar _ hbyte]
    rfl
  · refine ⟨_, _, rfl, ?_⟩
    have hfirst : (UInt8.ofNat (c.toNat / 64 % 32 + 192)).toNat = c.toNat / 64 % 32 + 192 :=
      toNat_byte (by omega)
    rw [List.cons_append, readChar_two (by omega) (isTail_byte _), hchar _ ?_]
    · rfl
    · simp only [tailBits, List.foldl_cons, List.foldl_nil, hfirst]
      rw [toNat_byte (by omega)]
      omega
  · refine ⟨_, _, rfl, ?_⟩
    have hfirst : (UInt8.ofNat (c.toNat / 4096 % 16 + 224)).toNat = c.toNat / 4096 % 16 + 224 :=
      toNat_byte (by omega)
    have hsecond : (UInt8.ofNat (c.toNat / 64 % 64 + 128)).toNat = c.toNat / 64 % 64 + 128 :=
      toNat_byte (by omega)
    rw [List.cons_append, List.cons_append, readChar_three (by omega) (isTail_byte _) ?_ ?_
      (isTail_byte _), hchar _ ?_]
    · rfl
    · simp only [tailBits, List.foldl_cons, List.foldl_nil, hfirst, hsecond]
      rw [toNat_byte (by omega)]
      omega
    · intro h
      have hbyte := toNat_of_byte_eq (m := 0xe0) (by omega) (by omega) h
      omega
    · intro h
      have hbyte := toNat_of_byte_eq (m := 0xed) (by omega) (by omega) h
      omega
  · refine ⟨_, _, rfl, ?_⟩
    have hfirst : (UInt8.ofNat (c.toNat / 262144 % 8 + 240)).toNat = c.toNat / 262144 % 8 + 240 :=
      toNat_byte (by omega)
    have hsecond : (UInt8.ofNat (c.toNat / 4096 % 64 + 128)).toNat = c.toNat / 4096 % 64 + 128 :=
      toNat_byte (by omega)
    have hthird : (UInt8.ofNat (c.toNat / 64 % 64 + 128)).toNat = c.toNat / 64 % 64 + 128 :=
      toNat_byte (by omega)
    rw [List.cons_append, List.cons_append, List.cons_append,
      readChar_four (by omega) (isTail_byte _) ?_ ?_ (isTail_byte _) (isTail_byte _), hchar _ ?_]
    · rfl
    · simp only [tailBits, List.foldl_cons, List.foldl_nil, hfirst, hsecond, hthird]
      rw [toNat_byte (by omega)]
      omega
    · intro h
      have hbyte := toNat_of_byte_eq (m := 0xf0) (by omega) (by omega) h
      omega
    · intro h
      have hbyte := toNat_of_byte_eq (m := 0xf4) (by omega) (by omega) h
      omega

/-! ### Whole texts -/

theorem readUtf8From_skip (acc : List (Except UInt8 Char)) (rest : List UInt8) : ∀ bs : List UInt8,
    readUtf8From acc bs.length (bs ++ rest) = readUtf8From acc 0 rest
  | [] => rfl
  | _ :: bs => readUtf8From_skip acc rest bs

theorem readUtf8From_encode (c : Char) (acc : List (Except UInt8 Char)) (rest : List UInt8) :
    readUtf8From acc 0 (String.utf8EncodeChar c ++ rest) = readUtf8From (.ok c :: acc) 0 rest := by
  obtain ⟨a, bs, hencode, hread⟩ := readChar_encode c rest
  rw [hencode, List.cons_append, readUtf8From, hread]
  exact readUtf8From_skip _ rest bs

theorem readUtf8From_flatMap : ∀ (cs : List Char) (acc : List (Except UInt8 Char)),
    readUtf8From acc 0 (cs.flatMap String.utf8EncodeChar) = acc.reverse ++ cs.map .ok
  | [], acc => by simp [readUtf8From]
  | c :: cs, acc => by
    rw [List.flatMap_cons, readUtf8From_encode, readUtf8From_flatMap cs]
    simp

/-- **The bytes of a text are read back as its characters.** -/
theorem charsOfBytes_utf8 (s : String) : charsOfBytes (utf8 s) = s.toList := by
  rw [charsOfBytes, readUtf8, utf8_eq_flatMap, readUtf8From_flatMap, List.reverse_nil,
    List.nil_append, List.map_map]
  exact List.map_id _

end RvBackend.Text
