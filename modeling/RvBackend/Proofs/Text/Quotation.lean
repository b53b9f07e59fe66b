import Mathlib.Tactic
import RvBackend.Asm.Program
import RvBackend.Proofs.Text.Utf8

/-! # Strings of the assembler are read back

What a backslash or a quote in a string stands for hangs on the characters before it, so a string
can only be read from its beginning. `Quotation.read` does so. It takes a quote for the end unless a
backslash before it has it escaped, and knows `\"`, `\\`, `\n`, `\t` and `\x` with two digits.

* `Quotation.read_escapeByte`: the escape of a byte is read as that byte, whatever is behind it.
* `Quotation.read_escape`: so the escape of some bytes is read as these bytes, and no quote in it is
  taken for the end.
* `mem_escape`: the escape of any bytes is printable.
* `exists_fileLine`: the line of a program that names its source file.
* `escape_reads_back`: any bytes can be written in a string and are read back, and that line ends
  with its string. -/

namespace RvBackend.Text

/-! ### Characters of one byte -/

theorem toNat_charOfByte (b : UInt8) : (Char.ofNat b.toNat).toNat = b.toNat := by
  have hvalid : b.toNat.isValidChar := Or.inl (b.toNat_lt.trans (by norm_num))
  rw [Char.ofNat, dif_pos hvalid]
  rfl

theorem charOfByte_ne {b b' : UInt8} (h : b ≠ b') : Char.ofNat b.toNat ≠ Char.ofNat b'.toNat := by
  intro heq
  have hnat := congrArg Char.toNat heq
  rw [toNat_charOfByte, toNat_charOfByte] at hnat
  exact h (UInt8.toNat_inj.mp hnat)

theorem utf8EncodeChar_ascii {c : Char} (hc : c.toNat < 0x80) :
    String.utf8EncodeChar c = [UInt8.ofNat c.toNat] := by
  have hle : c.val.toNat ≤ 127 := Nat.le_of_lt_succ hc
  unfold String.utf8EncodeChar
  exact if_pos hle

/-! ### Reading -/

/-- What a reader finds behind the quote that opens a string. -/
inductive Quotation where
  /-- The bytes in front of the first quote that is not escaped, and the text behind this quote. -/
  | closed (bytes : List UInt8) (behind : List Char)
  /-- The bytes of a text without such a quote. -/
  | unclosed (bytes : List UInt8)
  /-- A backslash that begins no escape. -/
  | malformed
deriving DecidableEq, Repr

namespace Quotation

/-- The same with some bytes in front. -/
def prepend (bs : List UInt8) : Quotation → Quotation
  | closed bytes behind => closed (bs ++ bytes) behind
  | unclosed bytes => unclosed (bs ++ bytes)
  | malformed => malformed

@[simp] theorem prepend_nil (q : Quotation) : q.prepend [] = q := by cases q <;> rfl

@[simp] theorem prepend_prepend (bs bs' : List UInt8) (q : Quotation) :
    (q.prepend bs').prepend bs = q.prepend (bs ++ bs') := by
  cases q <;> simp [prepend]

/-- The byte that a character behind a backslash stands for. -/
def escapedByte? : Char → Option UInt8
  | '"' => some 0x22
  | '\\' => some 0x5c
  | 'n' => some 0x0a
  | 't' => some 0x09
  | _ => none

/-- The byte that two hexadecimal digits spell. -/
def hexByte? (high low : Char) : Option UInt8 := do
  return UInt8.ofNat (16 * (← digitBelow? 16 high) + (← digitBelow? 16 low))

/-- Reads a string from left to right, up to the first quote that is not escaped. -/
def read : List Char → Quotation
  | [] => unclosed []
  | '"' :: cs => closed [] cs
  | '\\' :: 'x' :: high :: low :: cs => (hexByte? high low).elim malformed fun b =>
    (read cs).prepend [b]
  | '\\' :: c :: cs => (escapedByte? c).elim malformed fun b => (read cs).prepend [b]
  | ['\\'] => malformed
  | c :: cs => (read cs).prepend (String.utf8EncodeChar c)

theorem read_plain {c : Char} (hquote : c ≠ '"') (hslash : c ≠ '\\') (cs : List Char) :
    read (c :: cs) = (read cs).prepend (String.utf8EncodeChar c) := by
  rw [read] <;> simp [hquote, hslash]

/-! ### Reading an escape -/

theorem hexByte?_upperHexDigit {high low : ℕ} (hhigh : high < 16) (hlow : low < 16) :
    hexByte? (upperHexDigit high) (upperHexDigit low) = some (UInt8.ofNat (16 * high + low)) := by
  have hdigit : ∀ d < 16, digitBelow? 16 (upperHexDigit d) = some d := by decide
  rw [hexByte?, hdigit high hhigh, hdigit low hlow]
  rfl

/-- **One byte**: its escape is read as the byte, whatever is behind it. -/
theorem read_escapeByte (b : UInt8) (cs : List Char) :
    read (escapeByte b ++ cs) = (read cs).prepend [b] := by
  unfold escapeByte
  split_ifs with hquote hslash hline htab hplain
  · rw [eq_of_beq hquote]
    rfl
  · rw [eq_of_beq hslash]
    rfl
  · rw [eq_of_beq hline]
    rfl
  · rw [eq_of_beq htab]
    rfl
  · rw [beq_iff_eq] at hquote hslash
    have hascii : (Char.ofNat b.toNat).toNat < 0x80 := by
      simp only [Bool.and_eq_true, decide_eq_true_eq, UInt8.lt_iff_toNat_lt] at hplain
      rw [toNat_charOfByte]
      exact hplain.2.trans (by decide)
    rw [List.singleton_append, read_plain (charOfByte_ne hquote) (charOfByte_ne hslash),
      utf8EncodeChar_ascii hascii, toNat_charOfByte, UInt8.ofNat_toNat]
  · have hdigits := @hexByte?_upperHexDigit (b.toNat / 16) (b.toNat % 16)
      (by have := b.toNat_lt; omega) (by omega)
    rw [Nat.div_add_mod, UInt8.ofNat_toNat] at hdigits
    show (hexByte? _ _).elim malformed _ = _
    rw [hdigits]
    rfl

/-- **Any bytes**: their escape is read as the bytes, whatever is behind it. -/
theorem read_escape (bs : List UInt8) (cs : List Char) :
    read (escape bs ++ cs) = (read cs).prepend bs := by
  induction bs with
  | nil => exact (prepend_nil _).symm
  | cons b bs ih =>
    rw [escape, List.flatMap_cons, List.append_assoc, read_escapeByte, ← escape, ih,
      prepend_prepend]
    rfl

/-- No quote in the escape is taken for the end. -/
theorem read_escape_end (bs : List UInt8) : read (escape bs) = unclosed bs := by
  have hread := read_escape bs []
  rw [List.append_nil] at hread
  rw [hread, read, prepend, List.append_nil]

/-- A quote behind the escape is the end. -/
theorem read_escape_quote (bs : List UInt8) (cs : List Char) :
    read (escape bs ++ '"' :: cs) = closed bs cs := by
  rw [read_escape, read, prepend, List.append_nil]

end Quotation

/-! ### The characters of an escape -/

theorem upperHexDigit_within {d : ℕ} (hd : d < 16) :
    0x20 ≤ (upperHexDigit d).toNat ∧ (upperHexDigit d).toNat < 0x7f := by
  interval_cases d <;> decide

theorem within_escapeByte (b : UInt8) : ∀ c ∈ escapeByte b, 0x20 ≤ c.toNat ∧ c.toNat < 0x7f := by
  unfold escapeByte
  split_ifs with hquote hslash hline htab hplain
  · simp
  · simp
  · simp
  · simp
  · simp only [Bool.and_eq_true, decide_eq_true_eq, UInt8.le_iff_toNat_le,
      UInt8.lt_iff_toNat_lt] at hplain
    rw [List.forall_mem_singleton, toNat_charOfByte]
    exact hplain
  · have hb := b.toNat_lt
    simp only [List.forall_mem_cons]
    exact ⟨by decide, by decide, upperHexDigit_within (by omega), upperHexDigit_within (by omega),
      nofun⟩

/-- **The escape of any bytes is printable.** -/
theorem mem_escape {bs : List UInt8} {c : Char} (h : c ∈ escape bs) :
    0x20 ≤ c.toNat ∧ c.toNat < 0x7f := by
  obtain ⟨b, -, hc⟩ := List.mem_flatMap.mp h
  exact within_escapeByte b c hc

/-- The bytes of printable characters are printable. -/
theorem within_utf8 {cs : List Char} (h : ∀ c ∈ cs, 0x20 ≤ c.toNat ∧ c.toNat < 0x7f) :
    ∀ b ∈ utf8 (String.ofList cs), 0x20 ≤ b ∧ b < 0x7f := by
  intro b hb
  rw [utf8_eq_flatMap, String.toList_ofList] at hb
  obtain ⟨c, hc, hbyte⟩ := List.mem_flatMap.mp hb
  obtain ⟨hlow, hhigh⟩ := h c hc
  rw [utf8EncodeChar_ascii (by omega), List.mem_singleton] at hbyte
  have hnat : b.toNat = c.toNat := by rw [hbyte, toNat_byte (by omega)]
  rw [UInt8.le_iff_toNat_le, UInt8.lt_iff_toNat_lt, hnat]
  exact ⟨hlow, hhigh⟩

theorem newline_notMem_escape (bs : List UInt8) : '\n' ∉ escape bs := by
  intro h
  exact absurd (mem_escape h).1 (by decide)

theorem escape_injective : Function.Injective escape := by
  intro bs bs' h
  have hread := Quotation.read_escape_end bs
  rw [h, Quotation.read_escape_end] at hread
  exact (Quotation.unclosed.inj hread).symm

/-! ### The name of the source file -/

/-- A program begins with the escaped name of its source file between two quotes, alone on its
line. -/
theorem exists_fileLine {p : Asm.Program} {text : String} (h : p.text? = some text) : ∃ behind,
    text.toList = "    .file \"".toList ++ escape (utf8 p.file) ++ '"' :: '\n' :: behind := by
  obtain ⟨functions, -, htext⟩ := Option.bind_eq_some_iff.mp h
  rw [← Option.some.inj htext]
  exact ⟨("    .option nopic\n" ++ String.join (p.globals.map Asm.GlobalVariable.text) ++
    String.join (p.constants.map Asm.GlobalConstant.text) ++ String.join functions).toList, by
    simp [escapeText]⟩

/-- **Strings are read back**: the escape of any bytes is printable, holds no quote that would end a
string, and is read as these bytes. So no two byte strings are written alike, and the name in the
first line of a program ends at the quote that ends the line. -/
theorem escape_reads_back :
    (∀ bs : List UInt8, (∀ b ∈ utf8 (String.ofList (escape bs)), 0x20 ≤ b ∧ b < 0x7f) ∧
      Quotation.read (escape bs) = .unclosed bs ∧
      ∀ behind, Quotation.read (escape bs ++ '"' :: behind) = .closed bs behind) ∧
    Function.Injective escape ∧
    ∀ (p : Asm.Program) (text : String), p.text? = some text → ∃ name behind,
      text.toList = "    .file \"".toList ++ name ++ '"' :: '\n' :: behind ∧ '\n' ∉ name ∧
        Quotation.read (name ++ '"' :: '\n' :: behind) =
      .closed (utf8 p.file) ('\n' :: behind) := by
  refine ⟨fun bs => ⟨within_utf8 fun _ => mem_escape, Quotation.read_escape_end bs,
    Quotation.read_escape_quote bs⟩, escape_injective, fun p text htext => ?_⟩
  obtain ⟨behind, hline⟩ := exists_fileLine htext
  exact ⟨_, behind, hline, newline_notMem_escape _, Quotation.read_escape_quote _ _⟩

/-- A backslash in front of a quote, and a character of two bytes. -/
theorem escape_reads_back_quote :
    (0x5c ∈ utf8 (String.ofList (escape [0x5c, 0x22, 0xc3, 0xa9])) ∧ (0x20 : UInt8) ≤ 0x5c ∧
      (0x5c : UInt8) < 0x7f) ∧
    Quotation.read ['\\', '\\', '\\', '"', '\\', 'x', 'C', '3', '\\', 'x', 'A', '9'] =
      .unclosed [0x5c, 0x22, 0xc3, 0xa9] ∧
    ({ file := "\\\"é" } : Asm.Program).text? =
    some "    .file \"\\\\\\\"\\xC3\\xA9\"\n    .option nopic\n" ∧
    ∃ name behind, "    .file \"\\\\\\\"\\xC3\\xA9\"\n    .option nopic\n".toList =
      "    .file \"".toList ++ name ++ '"' :: '\n' :: behind ∧ '\n' ∉ name ∧
        Quotation.read (name ++ '"' :: '\n' :: behind) =
      .closed [0x5c, 0x22, 0xc3, 0xa9] ('\n' :: behind) := by
  have hbyte : 0x5c ∈ utf8 (String.ofList (escape [0x5c, 0x22, 0xc3, 0xa9])) := by decide +kernel
  have htext : ({ file := "\\\"é" } : Asm.Program).text? =
      some "    .file \"\\\\\\\"\\xC3\\xA9\"\n    .option nopic\n" := by decide +kernel
  obtain ⟨hbytes, -, hfile⟩ := escape_reads_back
  obtain ⟨hprintable, hread, -⟩ := hbytes [0x5c, 0x22, 0xc3, 0xa9]
  exact ⟨⟨hbyte, hprintable _ hbyte⟩, hread, htext, hfile _ _ htext⟩

end RvBackend.Text
