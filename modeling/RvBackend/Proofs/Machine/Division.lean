import RvBackend.Proofs.Meaning.Words

/-! # Division of words

A quotient is rounded toward zero and a remainder has the sign of the dividend, except for a divisor
that is zero and for the one quotient that is no word. The two fit together all the same: quotient
times divisor plus remainder is the dividend, for all words.

* `quotient_mul_add_remainder`: this identity.
* `toInt_quotient`, `toInt_remainder`: the results as integers.
* `division_consistent`: both of them, of the operations of the machine. -/

namespace RvBackend.Machine

/-- **Quotient times divisor plus remainder is the dividend.** -/
theorem quotient_mul_add_remainder (a b : Int32) : quotient a b * b + remainder a b = a := by
  rw [Meaning.quotient_eq, Meaning.remainder_eq]
  by_cases hb : b = 0
  · rw [if_pos hb, if_pos hb, hb, Int32.mul_zero, Int32.zero_add]
  · rw [if_neg hb, if_neg hb]
    calc Int32.ofInt (a.toInt.tdiv b.toInt) * b + Int32.ofInt (a.toInt.tmod b.toInt)
        = Int32.ofInt (a.toInt.tdiv b.toInt * b.toInt + a.toInt.tmod b.toInt) := by
          rw [Int32.ofInt_add, Int32.ofInt_mul, Int32.ofInt_toInt]
      _ = a := by rw [Int.tdiv_mul_add_tmod, Int32.ofInt_toInt]

variable {a b : Int32}

/-- Outside the one quotient that is no word, a quotient is rounded toward zero. -/
theorem toInt_quotient (hb : b ≠ 0) (h : ¬ (a = Int32.minValue ∧ b = -1)) :
    (quotient a b).toInt = a.toInt.tdiv b.toInt := by
  rw [quotient, if_neg hb, if_neg h]
  rcases not_and_or.mp h with ha | hb
  · exact Int32.toInt_div_of_ne_left a b ha
  · exact Int32.toInt_div_of_ne_right a b hb

theorem toInt_remainder (hb : b ≠ 0) : (remainder a b).toInt = a.toInt.tmod b.toInt := by
  rw [remainder, if_neg hb]
  split_ifs with h
  · obtain ⟨rfl, rfl⟩ := h
    decide
  · exact Int32.toInt_mod a b

/-- A remainder is smaller than the divisor, whatever their signs. -/
theorem abs_remainder_lt (hb : b ≠ 0) : |(remainder a b).toInt| < |b.toInt| := by
  have hb' : b.toInt ≠ 0 := mt Meaning.toInt_eq_zero_iff.mp hb
  have hlt : (a.toInt.tmod b.toInt).natAbs < b.toInt.natAbs := by
    rw [Int.natAbs_tmod]
    exact Nat.mod_lt _ (Int.natAbs_pos.mpr hb')
  rw [toInt_remainder hb, Int.abs_eq_natAbs, Int.abs_eq_natAbs]
  exact_mod_cast hlt

/-- A remainder is zero or has the sign of the dividend. -/
theorem sign_remainder (hb : b ≠ 0) :
    remainder a b = 0 ∨ (remainder a b).toInt.sign = a.toInt.sign := by
  rw [← Meaning.toInt_eq_zero_iff, toInt_remainder hb, Int.sign_tmod]
  by_cases hdvd : b.toInt ∣ a.toInt
  · exact .inl (Int.tmod_eq_zero_of_dvd hdvd)
  · exact .inr (if_neg hdvd)

/-- **Division is consistent for all words**: the quotient times the divisor plus the remainder is
the dividend; for a divisor that is not zero, the remainder is smaller than it and is zero or has
the sign of the dividend; and the quotient is rounded toward zero wherever it is a word. -/
theorem division_consistent (a b : Int32) :
    BinaryOp.apply (BinaryOp.apply (BinaryOp.apply a b .div) b .mul) (BinaryOp.apply a b .rem)
    .add = a ∧
    (b ≠ 0 →
      |(BinaryOp.apply a b .rem).toInt| < |b.toInt| ∧
      (BinaryOp.apply a b .rem = 0 ∨ (BinaryOp.apply a b .rem).toInt.sign = a.toInt.sign) ∧
      (¬ (a = Int32.minValue ∧ b = -1) → (BinaryOp.apply a b .div).toInt = a.toInt.tdiv b.toInt)) :=
  ⟨quotient_mul_add_remainder a b,
    fun hb => ⟨abs_remainder_lt hb, sign_remainder hb, toInt_quotient hb⟩⟩

theorem odd_division_consistent :
    BinaryOp.apply (-7) 2 .div = -3 ∧ BinaryOp.apply (-7) 2 .rem = -1 ∧
    (BinaryOp.apply (-7) 2 .div).toInt = (-7 : Int32).toInt.tdiv (2 : Int32).toInt :=
  ⟨by decide, by decide, ((division_consistent (-7) 2).2 (by decide)).2.2 (by decide)⟩

end RvBackend.Machine
