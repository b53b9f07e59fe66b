import RvBackend.Asm.Program
import RvBackend.Machine.Listing
import RvBackend.Proofs.Lookup
import RvBackend.Proofs.Text.Decimal
import RvBackend.Proofs.Text.Pieces

/-! # Operands are read back

An operand is printed without blanks, commas and marks of comments, and the machine reads it back as
the register, the number, the place in memory or the label that it was.

* `IsIdentifier`: names that a program may use.
* `Operand.translate?`: an operand as the machine reads it.
* `parseOperand_text`: printed operands are read back. -/

namespace RvBackend.Asm

open Machine

/-! ### Characters -/

/-- A letter or an underscore; a character beyond ASCII counts as a letter unless it is a blank. -/
def isLetter (c : Char) : Bool := c.isAlpha || c == '_' || (0x80 ≤ c.toNat && !Text.isBlank c)

/-- A character that separates nothing in a line. -/
def isPlain (c : Char) : Bool := !Text.isBlank c && !([',', '/', '#', ':'].contains c)

/-- A name of letters, underscores and digits that does not begin with a digit. -/
def IsIdentifier (name : String) : Prop :=
  match name.toList with
  | [] => False
  | c :: cs => isLetter c = true ∧ ∀ d ∈ cs, isLetter d = true ∨ d.isDigit = true

instance (name : String) : Decidable (IsIdentifier name) :=
  match h : name.toList with
  | [] => .isFalse fun h' => by rw [IsIdentifier, h] at h'; exact h'
  | c :: cs =>
    decidable_of_iff (isLetter c = true ∧ ∀ d ∈ cs, isLetter d = true ∨ d.isDigit = true)
      (by rw [IsIdentifier, h])

/-- A character of a number or of a name is plain. -/
theorem isPlain_of_toNat {c : Char} (h : 0x80 ≤ c.toNat ∧ Text.isBlank c = false ∨
    0x30 ≤ c.toNat ∧ c.toNat ≤ 0x39 ∨ 0x40 ≤ c.toNat ∧ c.toNat ≤ 0x7f) : isPlain c = true := by
  have hne : ∀ d : Char, d.toNat < 0x30 ∨ d.toNat = 0x3a → c ≠ d := by
    rintro d hd rfl
    omega
  have hsep : [',', '/', '#', ':'].contains c = false := by
    rw [List.contains_eq_mem, decide_eq_false_iff_not]
    simp only [List.mem_cons, List.not_mem_nil, or_false, not_or]
    exact ⟨hne _ (by decide), hne _ (by decide), hne _ (by decide), hne _ (by decide)⟩
  have hblank : Text.isBlank c = false := by
    rcases h with h | h | h
    · exact h.2
    · simp only [Text.isBlank, Bool.or_eq_false_iff, Bool.and_eq_false_iff, decide_eq_false_iff_not,
        beq_eq_false_iff_ne]
      omega
    · simp only [Text.isBlank, Bool.or_eq_false_iff, Bool.and_eq_false_iff, decide_eq_false_iff_not,
        beq_eq_false_iff_ne]
      omega
  rw [isPlain, hsep, hblank]
  rfl

theorem toNat_of_isAlpha {c : Char} (h : c.isAlpha = true) :
    0x41 ≤ c.toNat ∧ c.toNat ≤ 0x5a ∨ 0x61 ≤ c.toNat ∧ c.toNat ≤ 0x7a := by
  rcases Bool.or_eq_true_iff.mp h with h | h
  · exact .inl (of_decide_eq_true h)
  · obtain ⟨hlow, hhigh⟩ := Bool.and_eq_true_iff.mp h
    exact .inr ⟨of_decide_eq_true hlow, of_decide_eq_true hhigh⟩

theorem toNat_of_isDigit {c : Char} (h : c.isDigit = true) : 0x30 ≤ c.toNat ∧ c.toNat ≤ 0x39 := by
  simp only [Char.isDigit, Bool.and_eq_true, decide_eq_true_eq, UInt32.le_iff_toNat_le,
    ge_iff_le] at h
  exact h

theorem toNat_of_isLetter {c : Char} (h : isLetter c = true) :
    0x80 ≤ c.toNat ∧ Text.isBlank c = false ∨ c = '_' ∨
      0x41 ≤ c.toNat ∧ c.toNat ≤ 0x5a ∨ 0x61 ≤ c.toNat ∧ c.toNat ≤ 0x7a := by
  simp only [isLetter, Bool.or_eq_true, Bool.and_eq_true, beq_iff_eq, decide_eq_true_eq,
    Bool.not_eq_true'] at h
  rcases h with (h | h) | h
  · exact .inr (.inr (toNat_of_isAlpha h))
  · exact .inr (.inl h)
  · exact .inl h

theorem isPlain_of_isLetter {c : Char} (h : isLetter c = true) : isPlain c = true := by
  rcases toNat_of_isLetter h with h | rfl | h | h
  · exact isPlain_of_toNat (.inl h)
  · decide
  · exact isPlain_of_toNat (.inr (.inr (by omega)))
  · exact isPlain_of_toNat (.inr (.inr (by omega)))

theorem isBlank_of_isPlain {c : Char} (h : isPlain c = true) : Text.isBlank c = false := by
  rw [isPlain, Bool.and_eq_true, Bool.not_eq_true'] at h
  exact h.1

theorem ne_of_isPlain {c d : Char} (h : isPlain c = true) (hd : isPlain d = false) : c ≠ d := by
  rintro rfl
  rw [h] at hd
  cases hd

/-- A text that is not empty and holds plain characters only. -/
def IsWord (cs : List Char) : Prop := cs ≠ [] ∧ ∀ c ∈ cs, isPlain c = true

theorem IsWord.append {cs ds : List Char} (h : IsWord cs) (h' : ∀ c ∈ ds, isPlain c = true) :
    IsWord (cs ++ ds) := by
  refine ⟨?_, ?_⟩
  · simp [h.1]
  · exact List.forall_mem_append.mpr ⟨h.2, h'⟩

theorem isWord_decimalChars (n : ℤ) : IsWord (Text.decimalChars n) := by
  refine ⟨Text.decimalChars_ne_nil n, fun c hc => ?_⟩
  have hall : ∀ c ∈ ['-', '0', '1', '2', '3', '4', '5', '6', '7', '8', '9'], isPlain c = true := by
    decide
  exact hall c (Text.mem_decimalChars hc)

/-! ### Names of registers -/

theorem toNat_of_digitBelow? {c : Char} {d : ℕ} (h : Text.digitBelow? 10 c = some d) :
    0x30 ≤ c.toNat ∧ c.toNat ≤ 0x39 := by
  rw [Text.digitBelow?, Option.filter_eq_some_iff] at h
  obtain ⟨hvalue, hd⟩ := h
  rw [decide_eq_true_eq] at hd
  simp only [Text.digitValue?, Bool.and_eq_true, decide_eq_true_eq] at hvalue
  split at hvalue
  · assumption
  · split at hvalue
    · cases hvalue; omega
    · split at hvalue
      · cases hvalue; omega
      · cases hvalue

theorem isPlain_of_readDigits : ∀ {cs : List Char} {acc n : ℕ}, Text.readDigits 10 acc cs = some n →
    ∀ c ∈ cs, isPlain c = true
  | [], _, _, _ => by simp
  | c :: cs, _, _, h => by
    rw [Text.readDigits, Option.bind_eq_some_iff] at h
    obtain ⟨d, hd, hrest⟩ := h
    exact List.forall_mem_cons.mpr
      ⟨isPlain_of_toNat (.inr (.inl (toNat_of_digitBelow? hd))), isPlain_of_readDigits hrest⟩

theorem isPlain_of_readInt64 {cs : List Char} {n : ℤ} (h : Text.readInt64 cs = some n) :
    ∀ c ∈ cs, isPlain c = true := by
  rw [Text.readInt64, Option.filter_eq_some_iff] at h
  have hread := h.1
  unfold Text.readDecimal at hread
  have hdigits : ∀ ds, Text.readDigits 10 0 ds = none ∨ ∀ c ∈ ds, isPlain c = true := by
    intro ds
    cases hds : Text.readDigits 10 0 ds with
    | none => exact .inl rfl
    | some m => exact .inr (isPlain_of_readDigits hds)
  unfold Text.readSign at hread
  split at hread
  · cases hread
  · next negative ds _ hsign =>
    rcases hdigits ds with hnone | hplain
    · rw [hnone] at hread; cases hread
    · split at hsign
      · cases hsign; exact List.forall_mem_cons.mpr ⟨by decide, hplain⟩
      · cases hsign; exact List.forall_mem_cons.mpr ⟨by decide, hplain⟩
      · cases hsign; exact hplain

/-- A name that stands for a register is a word that begins with a small letter. -/
theorem isWord_of_ofName? {name : String} {r : Register} (h : Register.ofName? name = some r) :
    IsWord name.toList ∧ ∃ c cs, name.toList = c :: cs ∧ c.isLower = true := by
  have hnamed : ∀ e ∈ Register.named, e.1.toList ≠ [] ∧ (∀ c ∈ e.1.toList, isPlain c = true) ∧
      e.1.toList.head?.any Char.isLower = true := by decide
  unfold Register.ofName? at h
  split at h
  · next r' hr' =>
    obtain ⟨hne, hplain, hlower⟩ := hnamed _ (lookup_mem hr')
    refine ⟨⟨hne, hplain⟩, ?_⟩
    obtain ⟨c, cs, hcs⟩ := List.exists_cons_of_ne_nil hne
    rw [hcs] at hlower
    exact ⟨c, cs, hcs, hlower⟩
  · split at h
    · next digits hdigits =>
      rw [Option.bind_eq_some_iff] at h
      obtain ⟨n, hn, -⟩ := h
      rw [hdigits]
      exact ⟨⟨List.cons_ne_nil _ _, List.forall_mem_cons.mpr ⟨by decide, isPlain_of_readInt64 hn⟩⟩,
        'x', digits, rfl, by decide⟩
    · cases h

theorem ofName?_eq_none {name : String} {c : Char} {cs : List Char} (h : name.toList = c :: cs)
    (hc : c.isLower = false) : Register.ofName? name = none := by
  cases hr : Register.ofName? name with
  | none => rfl
  | some r =>
    obtain ⟨-, d, ds, hds, hd⟩ := isWord_of_ofName? hr
    rw [h] at hds
    cases hds
    rw [hc] at hd
    cases hd

theorem ofName?_ofList_decimalChars (n : ℤ) (after : List Char) :
    Register.ofName? (String.ofList (Text.decimalChars n ++ after)) = none := by
  obtain ⟨c, cs, hcs⟩ := List.exists_cons_of_ne_nil (Text.decimalChars_ne_nil n)
  have hall : ∀ c ∈ ['-', '0', '1', '2', '3', '4', '5', '6', '7', '8', '9'], c.isLower = false := by
    decide
  have hmem : c ∈ Text.decimalChars n := hcs ▸ List.mem_cons_self
  refine @ofName?_eq_none _ c (cs ++ after) ?_ (hall c (Text.mem_decimalChars hmem))
  rw [String.toList_ofList, hcs, List.cons_append]

/-! ### Symbols -/

/-- A name that an operand can have and that is read back as a label. -/
structure IsSymbol (name : String) : Prop where
  head : ∃ c cs, name.toList = c :: cs ∧ (isLetter c = true ∨ c = '.')
  plain : ∀ c ∈ name.toList, isPlain c = true
  open_paren : '(' ∉ name.toList
  register : Register.ofName? name = none

theorem isLetter_not_paren {c : Char} (h : isLetter c = true ∨ c.isDigit = true) : c ≠ '(' := by
  rintro rfl
  revert h
  decide

theorem IsIdentifier.plain {name : String} (h : IsIdentifier name) :
    ∀ c ∈ name.toList, isPlain c = true ∧ c ≠ '(' := by
  unfold IsIdentifier at h
  split at h
  · exact absurd h id
  · next c cs hname =>
    rw [hname]
    intro d hd
    have hd' : isLetter d = true ∨ d.isDigit = true := by
      rcases List.mem_cons.mp hd with rfl | hd
      · exact .inl h.1
      · exact h.2 d hd
    refine ⟨?_, isLetter_not_paren hd'⟩
    rcases hd' with hd' | hd'
    · exact isPlain_of_isLetter hd'
    · exact isPlain_of_toNat (.inr (.inl (toNat_of_isDigit hd')))

theorem IsIdentifier.head {name : String} (h : IsIdentifier name) :
    ∃ c cs, name.toList = c :: cs ∧ isLetter c = true := by
  unfold IsIdentifier at h
  split at h
  · exact absurd h id
  · next c cs hname => exact ⟨c, cs, hname, h.1⟩

theorem IsIdentifier.isWord {name : String} (h : IsIdentifier name) : IsWord name.toList := by
  obtain ⟨c, cs, hname, -⟩ := h.head
  exact ⟨by rw [hname]; exact List.cons_ne_nil _ _, fun c hc => (h.plain c hc).1⟩

theorem isSymbol_of_identifier {name : String} (h : IsIdentifier name)
    (hreg : Register.ofName? name = none) : IsSymbol name := by
  obtain ⟨c, cs, hname, hc⟩ := h.head
  exact ⟨⟨c, cs, hname, .inl hc⟩, fun d hd => (h.plain d hd).1, fun hmem => (h.plain _ hmem).2 rfl,
    hreg⟩

/-- Labels that begin with a point are symbols. -/
theorem isSymbol_of_dot {name : String} {cs : List Char} (h : name.toList = '.' :: cs)
    (hcs : ∀ c ∈ cs, isPlain c = true ∧ c ≠ '(') : IsSymbol name := by
  refine ⟨⟨'.', cs, h, .inr rfl⟩, ?_, ?_, ofName?_eq_none h (by decide)⟩
  · rw [h]
    exact List.forall_mem_cons.mpr ⟨by decide, fun c hc => (hcs c hc).1⟩
  · rw [h, List.mem_cons, not_or]
    exact ⟨by decide, fun hmem => (hcs _ hmem).2 rfl⟩

theorem IsSymbol.isWord {name : String} (h : IsSymbol name) : IsWord name.toList := by
  obtain ⟨c, cs, hname, -⟩ := h.head
  exact ⟨by rw [hname]; exact List.cons_ne_nil _ _, h.plain⟩

theorem digitBelow?_eq_none {c : Char} (h : isLetter c = true ∨ c = '.') :
    Text.digitBelow? 10 c = none := by
  cases hd : Text.digitBelow? 10 c with
  | none => rfl
  | some d =>
    have hrange := toNat_of_digitBelow? hd
    rcases h with h | rfl
    · rcases toNat_of_isLetter h with h | rfl | h | h
      · omega
      · exact absurd hrange (by decide)
      · omega
      · omega
    · exact absurd hrange (by decide)

/-- What begins with a letter, an underscore or a point is no number. -/
theorem readLiteral_eq_error {bits : ℕ} {c : Char} {cs : List Char}
    (h : isLetter c = true ∨ c = '.') :
    ∃ e, Text.readLiteral bits (c :: cs) = .error e := by
  have hplain : c ≠ '-' ∧ c ≠ '+' ∧ c ≠ '0' := by
    refine ⟨?_, ?_, ?_⟩ <;> rintro rfl <;> revert h <;> decide
  have hsign : Text.readSign (c :: cs) = (false, c :: cs) := by
    rw [Text.readSign]
    · rintro _ heq; cases heq; exact hplain.1 rfl
    · rintro _ heq; cases heq; exact hplain.2.1 rfl
  have hbase : Text.splitBase (c :: cs) = (10, c :: cs) := by
    refine Text.splitBase_of_head ?_
    rw [List.head?_cons, Ne, Option.some.injEq]
    exact hplain.2.2
  suffices hsuff : ∃ e, Text.readUnsigned (c :: cs) = .error e by
    obtain ⟨e, he⟩ := hsuff
    exact ⟨e, by simp only [Text.readLiteral, hsign, he]⟩
  unfold Text.readUnsigned
  simp only [hbase]
  by_cases hunder : c = '_'
  · -- an underscore in front is skipped as a digit is read, and refused in the end
    subst hunder
    have hfirst : Text.underscoresSeparate (10 != 10) ('_' :: cs) = false := by
      cases cs <;> rfl
    split
    · next e _ => exact ⟨e, rfl⟩
    · exact ⟨.malformed, if_neg (by rw [hfirst]; exact Bool.false_ne_true)⟩
  · have hread : Text.readMagnitude 10 (Text.wordCount 64) 0 (c :: cs) = .error .malformed := by
      rw [Text.readMagnitude, if_neg hunder, digitBelow?_eq_none h]
    rw [hread]
    exact ⟨.malformed, rfl⟩

/-! ### Operands -/

/-- An operand as the machine reads it: a register by its number, a number as a word. -/
def Operand.translate? : Operand → Option Machine.Operand
  | .reg name => (Register.ofName? name).map .reg
  | .mem offset base => (Register.ofName? base).map (.mem (Int32.ofInt offset.toInt))
  | .label name => some (.label name)
  | .imm n => some (.imm (Int32.ofInt n.toInt))

/-- An operand that is printed so that it can be read back. -/
def Operand.Readable : Operand → Prop
  | .reg name => (Register.ofName? name).isSome
  | .mem offset base => (Register.ofName? base).isSome ∧ -2 ^ 31 ≤ offset.toInt ∧
      offset.toInt < 2 ^ 31
  | .label name => IsSymbol name
  | .imm n => -2 ^ 31 ≤ n.toInt ∧ n.toInt < 2 ^ 31

theorem inWord_of_range {bits : ℕ} {n : ℤ} (hbits : 32 ≤ bits) (h : -2 ^ 31 ≤ n ∧ n < 2 ^ 31) :
    Text.inWord bits n = true := by
  have hpow : (2 : ℤ) ^ 31 ≤ (Text.wordCount (bits - 1) : ℤ) := by
    unfold Text.wordCount
    exact_mod_cast Nat.pow_le_pow_right (by norm_num : 2 > 0) (by omega)
  rw [Text.inWord, Bool.and_eq_true, decide_eq_true_eq, decide_eq_true_eq]
  omega

theorem parseOperand_reg {name : String} {r : Register} (h : Register.ofName? name = some r) :
    parseOperand name.toList = .ok (.reg r) := by
  unfold parseOperand
  rw [String.ofList_toList, h]

theorem parseOperand_mem {offset : ℤ} {base : String} {r : Register}
    (hr : Register.ofName? base = some r) (hoffset : -2 ^ 31 ≤ offset ∧ offset < 2 ^ 31) :
    parseOperand (Text.decimalChars offset ++ '(' :: (base.toList ++ [')'])) =
      .ok (.mem (Int32.ofInt offset) r) := by
  have hparen : '(' ∉ Text.decimalChars offset :=
    fun h => absurd (Text.mem_decimalChars h) (by decide)
  have hmem : parseMem? (Text.decimalChars offset ++ '(' :: (base.toList ++ [')'])) =
      some (.ok (.mem (Int32.ofInt offset) r)) := by
    have hempty : (Text.decimalChars offset).isEmpty = false := by
      simp [Text.decimalChars_ne_nil]
    simp only [parseMem?, Text.cut_append _ hparen, Text.stripSuffix_append, String.ofList_toList,
      hr, Text.readLiteral_decimalChars (by omega) (inWord_of_range (le_refl 32) hoffset), hempty,
      Option.bind_eq_bind, Option.bind_some, Bool.false_eq_true, if_false]
    rfl
  unfold parseOperand
  rw [ofName?_ofList_decimalChars, hmem]
  rfl

theorem parseOperand_decimalChars (n : ℤ) :
    parseOperand (Text.decimalChars n) = parseImmOrLabel (Text.decimalChars n) := by
  have hparen : '(' ∉ Text.decimalChars n := fun h => absurd (Text.mem_decimalChars h) (by decide)
  have hreg := ofName?_ofList_decimalChars n []
  rw [List.append_nil] at hreg
  have hmem : parseMem? (Text.decimalChars n) = none := by
    simp only [parseMem?, Text.cut_of_notMem hparen]
    rfl
  unfold parseOperand
  rw [hreg, hmem]
  rfl

theorem parseOperand_imm {n : ℤ} (h : -2 ^ 31 ≤ n ∧ n < 2 ^ 31) :
    parseOperand (Text.decimalChars n) = .ok (.imm (Int32.ofInt n)) := by
  have hrange : -(Text.wordCount 31 : ℤ) ≤ n ∧ n < Text.wordCount 32 := by
    have h31 : (Text.wordCount 31 : ℤ) = 2 ^ 31 := by decide
    have h32 : (Text.wordCount 32 : ℤ) = 2 ^ 32 := by decide
    omega
  rw [parseOperand_decimalChars, parseImmOrLabel,
    Text.readLiteral_decimalChars (le_refl 64) (inWord_of_range (by omega) h)]
  exact if_pos hrange

theorem parseOperand_label {name : String} (h : IsSymbol name) :
    parseOperand name.toList = .ok (.label name) := by
  obtain ⟨c, cs, hname, hhead⟩ := h.head
  obtain ⟨e, he⟩ := @readLiteral_eq_error 64 c cs hhead
  have hmem : parseMem? name.toList = none := by
    simp only [parseMem?, Text.cut_of_notMem h.open_paren]
    rfl
  unfold parseOperand
  rw [String.ofList_toList, h.register, hmem]
  simp only [Option.getD_none, parseImmOrLabel, hname, he, List.isEmpty_cons, Bool.false_eq_true,
    if_false]
  rw [← hname, String.ofList_toList]

/-- **A printed operand is a word that is read back.** -/
theorem parseOperand_text {o : Operand} (h : o.Readable) :
    ∃ text o', o.text? = some text ∧ o.translate? = some o' ∧ IsWord text.toList ∧
      parseOperand text.toList = .ok o' := by
  cases o with
  | reg name =>
    obtain ⟨r, hr⟩ := Option.isSome_iff_exists.mp h
    obtain ⟨hword, -⟩ := isWord_of_ofName? hr
    have hne : name ≠ "" := by
      rintro rfl
      exact hword.1 rfl
    exact ⟨name, .reg r, if_neg hne, by simp [Operand.translate?, hr], hword, parseOperand_reg hr⟩
  | mem offset base =>
    obtain ⟨hbase, hoffset⟩ := h
    obtain ⟨r, hr⟩ := Option.isSome_iff_exists.mp hbase
    obtain ⟨hword, -⟩ := isWord_of_ofName? hr
    have hne : base ≠ "" := by
      rintro rfl
      exact hword.1 rfl
    have htext : (Text.decimal offset.toInt ++ "(" ++ base ++ ")").toList =
        Text.decimalChars offset.toInt ++ '(' :: (base.toList ++ [')']) := by
      simp [Text.decimal]
    refine ⟨_, .mem (Int32.ofInt offset.toInt) r, if_neg hne, by simp [Operand.translate?, hr], ?_,
      ?_⟩
    · rw [htext]
      refine (isWord_decimalChars _).append (List.forall_mem_cons.mpr ⟨by decide, ?_⟩)
      exact List.forall_mem_append.mpr ⟨hword.2, by decide⟩
    · rw [htext]
      exact parseOperand_mem hr hoffset
  | label name =>
    have hword := IsSymbol.isWord h
    have hne : name ≠ "" := by
      rintro rfl
      exact hword.1 rfl
    exact ⟨name, .label name, if_neg hne, rfl, hword, parseOperand_label h⟩
  | imm n =>
    have htext : (Text.decimal n.toInt).toList = Text.decimalChars n.toInt := String.toList_ofList
    refine ⟨_, .imm (Int32.ofInt n.toInt), rfl, rfl, ?_, ?_⟩
    · rw [htext]; exact isWord_decimalChars _
    · rw [htext]; exact parseOperand_imm h

end RvBackend.Asm
