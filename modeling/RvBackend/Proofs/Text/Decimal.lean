import Mathlib.Tactic
import RvBackend.Text.Literal

/-! # Decimals are read back

What `decimal` writes is made of digits and maybe a minus sign, has no leading zero, and is read
back as the same number by both readers: the plain one and the one for literals with a base.

* `mem_decimalChars`: the characters of a decimal.
* `readInt64_decimalChars`, `readLiteral_decimalChars`: decimals are read back. -/

namespace RvBackend.Text

/-! ### Digits -/

theorem digitChar_cases {d : ℕ} (hd : d < 10) :
    digitChar d ∈ ['0', '1', '2', '3', '4', '5', '6', '7', '8', '9'] := by
  interval_cases d <;> decide

theorem digitBelow?_digitChar {d : ℕ} (hd : d < 10) : digitBelow? 10 (digitChar d) = some d := by
  interval_cases d <;> decide

theorem mem_digitsOf {n : ℕ} {c : Char} (h : c ∈ digitsOf 10 n) :
    c ∈ ['0', '1', '2', '3', '4', '5', '6', '7', '8', '9'] := by
  fun_induction digitsOf 10 n with
  | case1 n hn =>
    rw [List.mem_singleton] at h
    exact h ▸ digitChar_cases (by omega)
  | case2 n hn ih =>
    rw [List.mem_append, List.mem_singleton] at h
    rcases h with h | rfl
    · exact ih h
    · exact digitChar_cases (Nat.mod_lt _ (by omega))

theorem isDigit_of_mem_digitsOf {n : ℕ} {c : Char} (h : c ∈ digitsOf 10 n) : c.isDigit = true := by
  have hall : ['0', '1', '2', '3', '4', '5', '6', '7', '8', '9'].all Char.isDigit = true := by
    decide
  exact List.all_eq_true.mp hall c (mem_digitsOf h)

theorem digitsOf_ne_nil (n : ℕ) : digitsOf 10 n ≠ [] := by
  rw [digitsOf]
  split <;> simp

/-- Only zero is written with a zero in front. -/
theorem head?_digitsOf {n : ℕ} (hn : n ≠ 0) : (digitsOf 10 n).head? ≠ some '0' := by
  fun_induction digitsOf 10 n with
  | case1 n h =>
    have hlt : n < 10 := by omega
    interval_cases n
    · exact absurd rfl hn
    all_goals decide
  | case2 n h ih =>
    rw [List.head?_append_of_ne_nil _ (digitsOf_ne_nil _)]
    exact ih (by omega)

/-- The characters of a decimal. -/
theorem mem_decimalChars {n : ℤ} {c : Char} (h : c ∈ decimalChars n) :
    c ∈ ['-', '0', '1', '2', '3', '4', '5', '6', '7', '8', '9'] := by
  cases n with
  | ofNat n => exact List.mem_cons_of_mem _ (mem_digitsOf h)
  | negSucc n =>
    rw [decimalChars, List.mem_cons] at h
    rcases h with rfl | h
    · exact List.mem_cons_self
    · exact List.mem_cons_of_mem _ (mem_digitsOf h)

theorem decimalChars_ne_nil (n : ℤ) : decimalChars n ≠ [] := by
  cases n with
  | ofNat n => exact digitsOf_ne_nil n
  | negSucc n => exact List.cons_ne_nil _ _

/-! ### Reading digits -/

theorem readDigits_append (b : ℕ) (ys : List Char) : ∀ (xs : List Char) (acc : ℕ),
    readDigits b acc (xs ++ ys) = (readDigits b acc xs).bind (readDigits b · ys)
  | [], acc => rfl
  | c :: xs, acc => by
    rw [List.cons_append, readDigits, readDigits, Option.bind_assoc]
    congr 1
    funext d
    exact readDigits_append b ys xs _

theorem readDigits_digitsOf (n : ℕ) : readDigits 10 0 (digitsOf 10 n) = some n := by
  fun_induction digitsOf 10 n with
  | case1 n h => simp [readDigits, digitBelow?_digitChar (show n < 10 by omega)]
  | case2 n h ih =>
    rw [readDigits_append, ih]
    simp only [Option.bind_some, readDigits,
      digitBelow?_digitChar (Nat.mod_lt n (by omega : 10 > 0)), Option.some.injEq]
    omega

theorem readMagnitude_append (b limit : ℕ) (ys : List Char) : ∀ (xs : List Char) (acc : ℕ),
    readMagnitude b limit acc (xs ++ ys) =
      (readMagnitude b limit acc xs).bind (readMagnitude b limit · ys)
  | [], acc => rfl
  | c :: xs, acc => by
    rw [List.cons_append, readMagnitude, readMagnitude]
    split
    · exact readMagnitude_append b limit ys xs acc
    · cases digitBelow? b c with
      | none => rfl
      | some d =>
        simp only
        split
        · exact readMagnitude_append b limit ys xs _
        · rfl

theorem readMagnitude_digitsOf {limit n : ℕ} (hn : n < limit) :
    readMagnitude 10 limit 0 (digitsOf 10 n) = .ok n := by
  have hplain : ∀ {d : ℕ}, d < 10 → digitChar d ≠ '_' := by
    intro d hd
    interval_cases d <;> decide
  fun_induction digitsOf 10 n with
  | case1 n h =>
    have hlt : n < 10 := by omega
    simp [readMagnitude, hplain hlt, digitBelow?_digitChar hlt, hn]
  | case2 n h ih =>
    have hlt : n % 10 < 10 := Nat.mod_lt _ (by omega)
    have hsum : n / 10 * 10 + n % 10 = n := by omega
    rw [readMagnitude_append, ih (by omega)]
    simp [Except.bind, readMagnitude, hplain hlt, digitBelow?_digitChar hlt, hsum, hn]

theorem underscoresSeparate_of_notMem : ∀ {cs : List Char} {digit : Bool}, '_' ∉ cs →
    underscoresSeparate digit cs = true
  | [], _, _ => rfl
  | c :: cs, _, h => by
    rw [List.mem_cons, not_or] at h
    rw [underscoresSeparate]
    · exact underscoresSeparate_of_notMem h.2
    · rintro rfl _
      exact h.1 rfl
    · rintro _ _ rfl _
      exact h.1 rfl

theorem splitBase_of_head {cs : List Char} (h : cs.head? ≠ some '0') : splitBase cs = (10, cs) := by
  rw [splitBase]
  · rintro x c cs' rfl
    exact h rfl
  · rintro cs' rfl
    exact h rfl

theorem readUnsigned_digitsOf {n : ℕ} (hn : n < wordCount 64) :
    readUnsigned (digitsOf 10 n) = .ok n := by
  by_cases hzero : n = 0
  · subst hzero
    decide +kernel
  have hbase := splitBase_of_head (head?_digitsOf hzero)
  have hplain : '_' ∉ digitsOf 10 n := fun h => absurd (mem_digitsOf h) (by decide)
  rw [readUnsigned]
  · simp only [hbase, readMagnitude_digitsOf hn, underscoresSeparate_of_notMem hplain, if_true]
  · exact digitsOf_ne_nil n

/-! ### Reading decimals -/

theorem readSign_digitsOf (n : ℕ) : readSign (digitsOf 10 n) = (false, digitsOf 10 n) := by
  rw [readSign]
  · intro cs h
    have : '-' ∈ digitsOf 10 n := h ▸ List.mem_cons_self
    exact absurd (mem_digitsOf this) (by decide)
  · intro cs h
    have : '+' ∈ digitsOf 10 n := h ▸ List.mem_cons_self
    exact absurd (mem_digitsOf this) (by decide)

/-- **A decimal is read back.** -/
theorem readDecimal_decimalChars (n : ℤ) : readDecimal (decimalChars n) = some n := by
  have hread : ∀ {b : Bool} {ds : List Char} {cs : List Char}, readSign cs = (b, ds) → ds ≠ [] →
      readDecimal cs = (readDigits 10 0 ds).map (signed b) := by
    intro b ds cs hsign hds
    unfold readDecimal
    rw [hsign]
    cases ds with
    | nil => exact absurd rfl hds
    | cons _ _ => rfl
  cases n with
  | ofNat n =>
    rw [decimalChars, hread (readSign_digitsOf n) (digitsOf_ne_nil n), readDigits_digitsOf]
    rfl
  | negSucc n =>
    have hsign : readSign (decimalChars (.negSucc n)) = (true, digitsOf 10 (n + 1)) := rfl
    rw [hread hsign (digitsOf_ne_nil _), readDigits_digitsOf]
    rfl

theorem decimalChars_injective : Function.Injective decimalChars := by
  intro m n h
  have := readDecimal_decimalChars m
  rw [h, readDecimal_decimalChars n] at this
  exact (Option.some.inj this).symm

theorem readInt64_decimalChars {n : ℤ} (h : inWord 64 n) : readInt64 (decimalChars n) = some n := by
  rw [readInt64, readDecimal_decimalChars, Option.filter_some, if_pos h]

/-- **A decimal is read back as a literal.** -/
theorem readLiteral_decimalChars {bits : ℕ} {n : ℤ} (hbits : bits ≤ 64) (h : inWord bits n) :
    readLiteral bits (decimalChars n) = .ok n := by
  have hpow : (wordCount (bits - 1) : ℤ) ≤ 2 ^ 63 := by
    unfold wordCount
    exact_mod_cast Nat.pow_le_pow_right (by norm_num : 2 > 0) (by omega)
  have hlimit : (wordCount 64 : ℤ) = 2 ^ 64 := by decide
  have hrange := h
  rw [inWord, Bool.and_eq_true, decide_eq_true_eq, decide_eq_true_eq] at hrange
  unfold readLiteral
  cases n with
  | ofNat n =>
    have hlt : n < wordCount 64 := by
      rw [Int.ofNat_eq_natCast] at hrange
      omega
    rw [decimalChars, readSign_digitsOf]
    simp only [readUnsigned_digitsOf hlt]
    exact if_pos h
  | negSucc n =>
    have hlt : n + 1 < wordCount 64 := by
      rw [Int.negSucc_eq] at hrange
      omega
    have hsign : readSign (decimalChars (.negSucc n)) = (true, digitsOf 10 (n + 1)) := rfl
    rw [hsign]
    simp only [readUnsigned_digitsOf hlt]
    exact if_pos h

end RvBackend.Text
