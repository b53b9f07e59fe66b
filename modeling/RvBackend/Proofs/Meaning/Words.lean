import RvBackend.Machine.Word
import RvBackend.Proofs.Meaning.Evaluator

/-! # Operators on words

The operators of programs in terms of the operations of the machine.

* `binary?_eq_some`, `unary?_eq_some`: what the generated instructions compute is the result of the
  operator. -/

namespace RvBackend.Meaning

open Machine (boolWord)

theorem ofInt_add_toInt (a b : Int32) : Int32.ofInt (a.toInt + b.toInt) = a + b := by
  rw [Int32.ofInt_add, Int32.ofInt_toInt, Int32.ofInt_toInt]

theorem ofInt_sub_toInt (a b : Int32) : Int32.ofInt (a.toInt - b.toInt) = a - b := by
  rw [Int32.ofInt_sub, Int32.ofInt_toInt, Int32.ofInt_toInt]

theorem ofInt_mul_toInt (a b : Int32) : Int32.ofInt (a.toInt * b.toInt) = a * b := by
  rw [Int32.ofInt_mul, Int32.ofInt_toInt, Int32.ofInt_toInt]

theorem ofInt_neg_toInt (a : Int32) : Int32.ofInt (-a.toInt) = -a := by
  rw [Int32.ofInt_neg, Int32.ofInt_toInt]

theorem quotient_eq (a b : Int32) :
    Machine.quotient a b = if b = 0 then -1 else Int32.ofInt (a.toInt.tdiv b.toInt) := by
  have hdiv : Int32.ofInt (a.toInt.tdiv b.toInt) = a / b := by
    rw [Int32.ofInt_tdiv a.minValue_le_toInt a.toInt_le b.minValue_le_toInt b.toInt_le,
      Int32.ofInt_toInt, Int32.ofInt_toInt]
  unfold Machine.quotient
  split
  · rfl
  · split
    · next h =>
      obtain ⟨rfl, rfl⟩ := h
      decide
    · exact hdiv.symm

theorem remainder_eq (a b : Int32) :
    Machine.remainder a b = if b = 0 then a else Int32.ofInt (a.toInt.tmod b.toInt) := by
  have hmod : Int32.ofInt (a.toInt.tmod b.toInt) = a % b := by
    rw [Int32.ofInt_tmod a.minValue_le_toInt a.toInt_le b.minValue_le_toInt b.toInt_le,
      Int32.ofInt_toInt, Int32.ofInt_toInt]
  unfold Machine.remainder
  split
  · rfl
  · split
    · next h =>
      obtain ⟨rfl, rfl⟩ := h
      decide
    · exact hmod.symm

theorem truth_eq (p : Prop) [Decidable p] (b : Bool) (h : p ↔ b = true) :
    truth (decide p) = boolWord b := by
  have hdecide : decide p = b := by
    cases b with
    | false => exact decide_eq_false fun hp => by simpa using h.mp hp
    | true => exact decide_eq_true (h.mpr rfl)
  rw [hdecide]
  rfl

theorem boolWord_and (a b : Bool) : boolWord a &&& boolWord b = boolWord (a && b) := by
  cases a <;> cases b <;> decide

theorem boolWord_xor_one (b : Bool) : boolWord b ^^^ 1 = boolWord (!b) := by cases b <;> decide

theorem or_eq_zero_iff {a b : Int32} : a ||| b = 0 ↔ a = 0 ∧ b = 0 := by
  rw [← Int32.toBitVec_inj, ← Int32.toBitVec_inj, ← Int32.toBitVec_inj]
  exact BitVec.or_eq_zero_iff

theorem difference_eq (a b : Int32) : difference a b = (a - b).toInt := by
  rw [difference, ofInt_sub_toInt]

theorem toInt_eq_zero_iff {a : Int32} : a.toInt = 0 ↔ a = 0 := by
  rw [← Int32.toInt_inj]
  rfl

theorem toInt_neg_iff {a : Int32} : a.toInt < 0 ↔ decide (a < 0) = true := by
  rw [decide_eq_true_eq, Int32.lt_iff_toInt_lt]
  rfl

theorem toInt_pos_iff {a : Int32} : 0 < a.toInt ↔ decide (0 < a) = true := by
  rw [decide_eq_true_eq, Int32.lt_iff_toInt_lt]
  rfl

/-- **The operators on two words**, as the machine computes them. -/
theorem binary?_eq_some (a b : Int32) :
    binary? a b .plus = some (a + b) ∧ binary? a b .minus = some (a - b) ∧
    binary? a b .times = some (a * b) ∧ binary? a b .divide = some (Machine.quotient a b) ∧
    binary? a b .mod = some (Machine.remainder a b) ∧
    binary? a b .and = some (boolWord (a != 0) &&& boolWord (b != 0)) ∧
    binary? a b .or = some (boolWord (a ||| b != 0)) ∧
    binary? a b .equal = some (boolWord (a - b == 0)) ∧
    binary? a b .notEqual = some (boolWord (a - b != 0)) ∧
    binary? a b .less = some (boolWord (a - b < 0)) ∧
    binary? a b .greater = some (boolWord (0 < a - b)) ∧
    binary? a b .lessOrEqual = some (boolWord (0 < a - b) ^^^ 1) ∧
    binary? a b .greaterOrEqual = some (boolWord (a - b < 0) ^^^ 1) := by
  simp only [binary?, Option.some.injEq, difference_eq, boolWord_and, boolWord_xor_one]
  refine ⟨ofInt_add_toInt a b, ofInt_sub_toInt a b, ofInt_mul_toInt a b, (quotient_eq a b).symm,
    (remainder_eq a b).symm, truth_eq _ _ ?_, truth_eq _ _ ?_, truth_eq _ _ ?_, truth_eq _ _ ?_,
    truth_eq _ _ ?_, truth_eq _ _ ?_, truth_eq _ _ ?_, truth_eq _ _ ?_⟩
  · simp
  · rw [bne_iff_ne, Ne, Ne, Ne, or_eq_zero_iff, not_and_or]
  · rw [beq_iff_eq, toInt_eq_zero_iff]
  · rw [bne_iff_ne, ne_eq, toInt_eq_zero_iff]
  · exact toInt_neg_iff
  · exact toInt_pos_iff
  · rw [← not_lt, toInt_pos_iff, Bool.not_eq_true', Bool.not_eq_true]
  · rw [← not_lt, toInt_neg_iff, Bool.not_eq_true', Bool.not_eq_true]

/-- **The operators on one word**, as the machine computes them. -/
theorem unary?_eq_some (a : Int32) : unary? a .neg = some (-a) ∧ unary? a .minus = some (-a) ∧
    unary? a .not = some (boolWord (a == 0)) := by
  refine ⟨congrArg some (ofInt_neg_toInt a), congrArg some (ofInt_neg_toInt a), congrArg some ?_⟩
  exact truth_eq _ _ (by rw [beq_iff_eq])

end RvBackend.Meaning
