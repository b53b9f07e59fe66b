import RvBackend.Proofs.Simulation.StackArea

/-! # Comparisons

A comparison looks at the sign of a difference, and a difference of words wraps around. It is
therefore right as long as the difference of the numbers is a word, and equality is right in any
case.

* `Operator.compares` is the comparison of numbers.
* `binary?_compares_iff`: when the result of a relational operator is that of the comparison.
* `comparison_exact_iff`: the same for the code of an expression, whatever its operands are. -/

namespace RvBackend

/-- What a relational operator says about two numbers. -/
def Operator.compares (a b : ℤ) : Operator → Bool
  | .less => a < b
  | .lessOrEqual => a ≤ b
  | .greater => b < a
  | .greaterOrEqual => b ≤ a
  | .equal => a = b
  | .notEqual => a ≠ b
  | _ => false

namespace Meaning

/-- The difference of two words is a word. -/
def Near (a b : Int32) : Prop := -2 ^ 31 ≤ a.toInt - b.toInt ∧ a.toInt - b.toInt < 2 ^ 31

variable {a b : Int32} {op : Operator}

theorem difference_of_near (h : Near a b) : difference a b = a.toInt - b.toInt := by
  have hsize : ((Int32.size : ℕ) : ℤ) = 2 ^ 32 := rfl
  rw [difference, Int32.toInt_ofInt]
  exact Int.bmod_eq_of_le (by have := h.1; omega) (by have := h.2; omega)

/-- Where a difference is no word, it has the other sign. -/
theorem difference_of_not_near (h : ¬ Near a b) :
    (a.toInt < b.toInt ∧ 0 < difference a b) ∨ (b.toInt < a.toInt ∧ difference a b < 0) := by
  have hsize : ((Int32.size : ℕ) : ℤ) = 2 ^ 32 := rfl
  have halow := a.le_toInt
  have hahigh := a.toInt_lt
  have hblow := b.le_toInt
  have hbhigh := b.toInt_lt
  rw [Near] at h
  rw [difference, Int32.toInt_ofInt, Int.bmod_def, hsize]
  split <;> omega

theorem binary?_of_near (h : Near a b) (hop : op.isRelational = true) :
    binary? a b op = some (truth (op.compares a.toInt b.toInt)) := by
  have hdifference := difference_of_near h
  cases op with
  | less | lessOrEqual | greater | greaterOrEqual | equal | notEqual =>
    refine congrArg (fun t => some (truth t)) (decide_eq_decide.mpr ?_)
    omega
  | _ => cases hop

theorem binary?_of_equality (hop : op = .equal ∨ op = .notEqual) :
    binary? a b op = some (truth (op.compares a.toInt b.toInt)) := by
  have hzero : difference a b = 0 ↔ a.toInt = b.toInt := by
    by_cases hnear : Near a b
    · rw [difference_of_near hnear]
      omega
    · have hdifference := difference_of_not_near hnear
      omega
  obtain rfl | rfl := hop
  · exact congrArg (fun t => some (truth t)) (decide_eq_decide.mpr hzero)
  · exact congrArg (fun t => some (truth t)) (decide_eq_decide.mpr (not_congr hzero))

/-- Where the difference is no word, an order is always the wrong one. -/
theorem binary?_of_not_near (h : ¬ Near a b) (hop : op.isRelational = true) (hequal : op ≠ .equal)
    (hnotEqual : op ≠ .notEqual) :
    binary? a b op = some (truth (!op.compares a.toInt b.toInt)) := by
  have hdifference := difference_of_not_near h
  cases op with
  | less | lessOrEqual | greater | greaterOrEqual =>
    rw [Operator.compares, ← decide_not]
    refine congrArg (fun t => some (truth t)) (decide_eq_decide.mpr ?_)
    omega
  | equal => exact absurd rfl hequal
  | notEqual => exact absurd rfl hnotEqual
  | _ => cases hop

theorem exists_truth (hop : op.isRelational = true) : ∃ t, binary? a b op = some (truth t) := by
  cases op with
  | less | lessOrEqual | greater | greaterOrEqual | equal | notEqual => exact ⟨_, rfl⟩
  | _ => cases hop

theorem truth_not (t : Bool) : truth (!t) ≠ truth t := by cases t <;> decide

/-- The result of a relational operator is that of the comparison exactly if the operator looks at
equality or the difference of the words is a word. -/
theorem binary?_compares_iff (hop : op.isRelational = true) :
    binary? a b op = some (truth (op.compares a.toInt b.toInt)) ↔ op = .equal ∨ op = .notEqual ∨
      Near a b := by
  constructor
  · intro h
    by_contra hcon
    rw [not_or, not_or] at hcon
    rw [binary?_of_not_near hcon.2.2 hop hcon.1 hcon.2.1] at h
    exact truth_not _ (Option.some.inj h)
  · rintro (rfl | rfl | hnear)
    · exact binary?_of_equality (.inl rfl)
    · exact binary?_of_equality (.inr rfl)
    · exact binary?_of_near hnear hop

end Meaning

namespace Simulation

open Asm (Register Line)
open Machine (State Listing Names Steps CodeAt opCount codeAt_append opCount_append)

/-- Code has run to its end and has put a word on the stack. -/
structure Pushes (names : Names) (code : Listing) (lines : List Line) (v : Int32) (s s' : State) :
    Prop where
  steps : ∃ n, Steps names code n s s'
  pc : s'.pc = s.pc + opCount lines
  sp : s'.reg Register.sp = s.reg Register.sp - 4
  top : s'.cell (s'.reg Register.sp) = v

variable {names : Names} {code : Listing} {scopes : Scopes} {abi : Abi} {loc : Location}
  {op : Operator} {left right : Expr} {lines lc rc : List Line} {a b : Int32} {s s₁ s₂ : State}

/-- The code of an operator puts its result on the stack, if that of its operands has put theirs
there. -/
theorem pushes_binary (h : Lower.expression abi scopes (.binary loc op left right) = .ok lines)
    (hl : Lower.expression abi scopes left = .ok lc)
    (hr : Lower.expression abi scopes right = .ok rc) (hcode : CodeAt code s.pc lines)
    (hsp : 4 ∣ (s.reg Register.sp).toInt) (hleft : Pushes names code lc a s s₁)
    (hright : Pushes names code rc b s₁ s₂) (hkept : s₂.cell (s₁.reg Register.sp) = a) :
    ∃ s' v, Pushes names code lines v s s' ∧ Meaning.binary? a b op = some v := by
  obtain ⟨lc', rc', oc, hl', hr', ho, rfl⟩ := Lower.expression_binary h
  rw [hl] at hl'
  cases hl'
  rw [hr] at hr'
  cases hr'
  rw [append_combination, codeAt_append, codeAt_append] at hcode
  have hback : s₂.reg Register.sp + 4 = s₁.reg Register.sp := by
    rw [hright.sp, Int32.sub_add_cancel]
  have hsp₂ : 4 ∣ (s₂.reg Register.sp).toInt := by
    rw [hright.sp, hleft.sp]
    exact dvd_sub_four (dvd_sub_four hsp)
  obtain ⟨s₃, v, h₃, hv, hreplaced⟩ := straight_binary names ho
    (hcode.2.2.at (by rw [hright.pc, hleft.pc])) hsp₂
  rw [hback, hkept, hright.top] at hv
  rw [hback] at hreplaced
  obtain ⟨m, hm⟩ := hleft.steps
  obtain ⟨n, hn⟩ := hright.steps
  refine ⟨s₃, v, ⟨⟨_, (hm.trans hn).trans h₃.steps⟩, ?_, by rw [hreplaced.sp, hleft.sp], ?_⟩, hv⟩
  · rw [h₃.pc, hright.pc, hleft.pc, append_combination, opCount_append, opCount_append]
    omega
  · rw [hreplaced.sp, hreplaced.top]

/-- **Comparisons**: the code of a relational operator whose operands have put their values on the
stack puts a truth value there, and it is that of the comparison exactly if the operator looks at
equality or the difference of the values is a word. -/
theorem comparison_exact_iff (hop : op.isRelational = true)
    (h : Lower.expression abi scopes (.binary loc op left right) = .ok lines)
    (hl : Lower.expression abi scopes left = .ok lc)
    (hr : Lower.expression abi scopes right = .ok rc) (hcode : CodeAt code s.pc lines)
    (hsp : 4 ∣ (s.reg Register.sp).toInt) (hleft : Pushes names code lc a s s₁)
    (hright : Pushes names code rc b s₁ s₂) (hkept : s₂.cell (s₁.reg Register.sp) = a) :
    ∃ s' v, Pushes names code lines v s s' ∧ (v = 0 ∨ v = 1) ∧
      (v = Meaning.truth (op.compares a.toInt b.toInt) ↔
        op = .equal ∨ op = .notEqual ∨ -2 ^ 31 ≤ a.toInt - b.toInt ∧
        a.toInt - b.toInt < 2 ^ 31) := by
  obtain ⟨s', v, hpushes, hv⟩ := pushes_binary h hl hr hcode hsp hleft hright hkept
  have hiff := Meaning.binary?_compares_iff hop (a := a) (b := b)
  obtain ⟨t, ht⟩ := Meaning.exists_truth hop (a := a) (b := b)
  rw [hv, Option.some.injEq] at hiff ht
  refine ⟨s', v, hpushes, ?_, hiff⟩
  rw [ht]
  cases t
  · exact .inl rfl
  · exact .inr rfl

/-! ### Comparisons of constants -/

theorem Straight.pushes {words : ℕ} {v : Int32} (h : Straight names code (opCount lines) s s₁)
    (hcomputed : Computed words v s s₁) : Pushes names code lines v s s₁ :=
  ⟨⟨_, h.steps⟩, h.pc, hcomputed.sp, hcomputed.top⟩

/-- The comparison of two constants. -/
def comparing (op : Operator) (a b : Int32) : Expr :=
  .binary {} op (.constant ⟨{}, .integer, a.toInt⟩) (.constant ⟨{}, .integer, b.toInt⟩)

/-- Constants put their values on the stack. -/
theorem constants_pushed (h : Lower.expression {} [] (comparing op a b) = .ok lines)
    (hcode : CodeAt code s.pc lines) (hsp : 4 ∣ (s.reg Register.sp).toInt) :
    ∃ lc rc s₁ s₂, Lower.expression {} [] (.constant ⟨{}, .integer, a.toInt⟩) = .ok lc ∧
      Lower.expression {} [] (.constant ⟨{}, .integer, b.toInt⟩) = .ok rc ∧
      Pushes names code lc a s s₁ ∧
      Pushes names code rc b s₁ s₂ ∧ s₂.cell (s₁.reg Register.sp) = a := by
  obtain ⟨lc, rc, oc, hl, hr, -, rfl⟩ := Lower.expression_binary h
  rw [append_combination, codeAt_append, codeAt_append] at hcode
  have hwords (x : Int32) : (Expr.constant ⟨{}, .integer, x.toInt⟩).stackWords < 2 ^ 30 := by
    norm_num [Expr.stackWords]
  obtain ⟨s₁, v, h₁, hv, hleft⟩ := straight_expression names hl rfl hcode.1 hsp (hwords a).le
    (fun name hname => absurd hname List.not_mem_nil)
  obtain ⟨s₂, w, h₂, hw, hright⟩ :=
    straight_expression names hr rfl (hcode.2.1.at h₁.pc) (hleft.aligned hsp) (hwords b).le
      (fun name hname => absurd hname List.not_mem_nil)
  obtain rfl : a = v := by
    rw [← a.ofInt_toInt]
    exact Option.some.inj hv
  obtain rfl : b = w := by
    rw [← b.ofInt_toInt]
    exact Option.some.inj hw
  refine ⟨lc, rc, s₁, s₂, hl, hr, h₁.pushes hleft, h₂.pushes hright, ?_⟩
  rw [← hright.sp_add_four]
  exact hleft.left hright (hwords b)

theorem three_less_five : ∃ lines s' v, Lower.expression {} [] (comparing .less 3 5) = .ok lines ∧
    CodeAt (listed lines) begun.pc lines ∧ Pushes {} (listed lines) lines v begun s' ∧
      (v = 0 ∨ v = 1) ∧
      (v = Meaning.truth (Operator.compares 3 5 .less) ↔
        Operator.less = .equal ∨ Operator.less = .notEqual ∨ -2 ^ 31 ≤ (3 - 5 : ℤ) ∧
        (3 - 5 : ℤ) < 2 ^ 31) := by
  obtain ⟨lines, hlines, hcode⟩ := exists_codeAt [] (comparing .less 3 5) (by decide +kernel)
  have hat : CodeAt (listed lines) begun.pc lines := hcode (listed lines) rfl
  obtain ⟨lc, rc, s₁, s₂, hl, hr, hleft, hright, hkept⟩ := constants_pushed hlines hat (by decide)
  obtain ⟨s', v, hpushes, hbit, hiff⟩ :=
    comparison_exact_iff rfl hlines hl hr hat (by decide) hleft hright hkept
  exact ⟨lines, s', v, hlines, hat, hpushes, hbit, hiff⟩

/-- The least word is less than one, but the code says that it is not. -/
theorem least_not_less_one :
    ∃ lines s', Lower.expression {} [] (comparing .less Int32.minValue 1) = .ok lines ∧
    CodeAt (listed lines) begun.pc lines ∧ Pushes {} (listed lines) lines 0 begun s' ∧
    Int32.minValue.toInt < (1 : Int32).toInt := by
  obtain ⟨lines, hlines, hcode⟩ :=
    exists_codeAt [] (comparing .less Int32.minValue 1) (by decide +kernel)
  have hat : CodeAt (listed lines) begun.pc lines := hcode (listed lines) rfl
  obtain ⟨lc, rc, s₁, s₂, hl, hr, hleft, hright, hkept⟩ := constants_pushed hlines hat (by decide)
  obtain ⟨s', v, hpushes, hv⟩ := pushes_binary hlines hl hr hat (by decide) hleft hright hkept
  have hzero : Meaning.binary? Int32.minValue 1 .less = some 0 := by decide
  rw [hzero] at hv
  cases hv
  exact ⟨lines, s', hlines, hat, hpushes, by decide⟩

end Simulation

end RvBackend
