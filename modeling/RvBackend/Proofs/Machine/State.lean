import Mathlib.Tactic
import RvBackend.Machine.Run

/-! # States and steps of the machine

Registers and words of memory after a change of state, and runs as sequences of steps.

* `State.cell` is the word at an address, `State.poke` puts a word there.
* `Steps names code n s s'`: the machine goes from `s` to `s'` in `n` steps.
* `runSteps_of_steps`: a run goes on behind the steps it has taken. -/

namespace RvBackend.Machine

open Asm (Register)

/-! ### Registers -/

namespace State

variable (s : State) {r r' : Register} (v : Int32)

theorem reg_setReg_self (h : r.val ≠ 0) : (s.setReg r v).reg r = v := by
  unfold setReg reg
  rw [if_neg h]
  exact Vector.getElem_set_self ..

theorem reg_setReg_of_ne (h : r' ≠ r) : (s.setReg r v).reg r' = s.reg r' := by
  unfold setReg reg
  split
  · rfl
  · exact Vector.getElem_set_ne r.isLt r'.isLt fun heq => h (Fin.ext heq.symm)

@[simp] theorem pc_setReg : (s.setReg r v).pc = s.pc := by unfold setReg; split <;> rfl

@[simp] theorem memory_setReg : (s.setReg r v).memory = s.memory := by unfold setReg; split <;> rfl

@[simp] theorem input_setReg : (s.setReg r v).input = s.input := by unfold setReg; split <;> rfl

@[simp] theorem output_setReg : (s.setReg r v).output = s.output := by unfold setReg; split <;> rfl

@[simp] theorem pc_next : s.next.pc = s.pc + 1 := rfl

@[simp] theorem reg_next : s.next.reg r = s.reg r := rfl

@[simp] theorem input_next : s.next.input = s.input := rfl

@[simp] theorem output_next : s.next.output = s.output := rfl

/-! ### Memory -/

/-- The word at an address. -/
def cell (a : Int32) : Int32 := s.word a.toUInt32

/-- The state with a word at an address. -/
def poke (a v : Int32) : State := { s with memory := s.memory.insert a.toUInt32 v }

@[simp] theorem cell_setReg (a : Int32) : (s.setReg r v).cell a = s.cell a := by
  unfold cell word
  rw [memory_setReg]

@[simp] theorem cell_next (a : Int32) : s.next.cell a = s.cell a := rfl

@[simp] theorem reg_poke (a : Int32) : (s.poke a v).reg r = s.reg r := rfl

@[simp] theorem pc_poke (a : Int32) : (s.poke a v).pc = s.pc := rfl

@[simp] theorem input_poke (a : Int32) : (s.poke a v).input = s.input := rfl

@[simp] theorem output_poke (a : Int32) : (s.poke a v).output = s.output := rfl

theorem toUInt32_injective {a b : Int32} (h : a.toUInt32 = b.toUInt32) : a = b := by
  rw [← a.toInt32_toUInt32, h, b.toInt32_toUInt32]

@[simp] theorem cell_poke_self (a : Int32) : (s.poke a v).cell a = v := by
  simp [cell, word, poke]

theorem cell_poke_of_ne {a b : Int32} (h : b ≠ a) : (s.poke a v).cell b = s.cell b := by
  have hne : a.toUInt32 ≠ b.toUInt32 := fun heq => h (toUInt32_injective heq.symm)
  simp [cell, word, poke, Std.HashMap.getD_insert, hne]

end State

/-! ### Addresses -/

theorem toNat_toUInt32 (a : Int32) : (a.toUInt32.toNat : ℤ) = a.toInt ∨
    (a.toUInt32.toNat : ℤ) = a.toInt + 2 ^ 32 := by
  have hcond := BitVec.toInt_eq_toNat_cond a.toBitVec
  have hint : a.toInt = a.toBitVec.toInt := rfl
  have hnat : a.toUInt32.toNat = a.toBitVec.toNat := rfl
  rw [hint, hnat, hcond]
  split
  · exact .inl rfl
  · right
    push_cast
    ring

/-- An address is a multiple of four if it is one as an integer. -/
theorem aligned_of_dvd {a : Int32} (h : 4 ∣ a.toInt) : a.toUInt32 % 4 = 0 := by
  rw [← UInt32.toNat_inj, UInt32.toNat_mod]
  show a.toUInt32.toNat % 4 = 0
  have hcases := toNat_toUInt32 a
  omega

theorem toInt_add_of_le {a b : Int32} (hlow : -2 ^ 31 ≤ a.toInt + b.toInt)
    (hhigh : a.toInt + b.toInt < 2 ^ 31) : (a + b).toInt = a.toInt + b.toInt := by
  rw [Int32.toInt_add]
  exact Int.bmod_eq_of_le (by omega) (by omega)

theorem toInt_codeAddress {i : ℕ} (hi : i ≤ 2 ^ 28) :
    (Int32.ofNat i * 4).toInt = 4 * i ∧ (codeAddress i).toInt = 65536 + 4 * i := by
  have hfour : (4 : Int32).toInt = 4 := by decide
  have hbase : codeBase.toInt = 65536 := by decide
  have hindex : (Int32.ofNat i).toInt = i := Int32.toInt_ofNat_of_lt (by omega)
  have hmul : (Int32.ofNat i * 4).toInt = 4 * i := by
    rw [Int32.toInt_mul, hindex, hfour, Int.bmod_eq_of_le (by omega) (by omega)]
    omega
  refine ⟨hmul, ?_⟩
  rw [codeAddress, toInt_add_of_le (by omega) (by omega), hmul, hbase]

/-- The address of an instruction leads back to its number, and it does not end the program. -/
theorem codeIndex?_codeAddress {i : ℕ} (hi : i ≤ 2 ^ 28) :
    codeIndex? (codeAddress i) = some i ∧ codeAddress i ≠ haltAddress := by
  obtain ⟨hmul, haddr⟩ := toInt_codeAddress hi
  have hbase : codeBase.toInt = 65536 := by decide
  have hfour : (4 : Int32).toInt = 4 := by decide
  have hindex : (Int32.ofNat i).toInt = i := Int32.toInt_ofNat_of_lt (by omega)
  have hsub : codeAddress i - codeBase = Int32.ofNat i * 4 := by rw [codeAddress]; grind
  have hlow : ¬ codeAddress i < codeBase := by rw [Int32.lt_iff_toInt_lt]; omega
  have hmod : Int32.ofNat i * 4 % 4 = 0 := by
    rw [← Int32.toInt_inj, Int32.toInt_mod, hmul, hfour]
    show _ = (0 : ℤ)
    rw [Int.tmod_eq_emod_of_nonneg (by omega)]
    omega
  have hdiv : Int32.ofNat i * 4 / 4 = Int32.ofNat i := by
    rw [← Int32.toInt_inj, Int32.toInt_div_of_ne_right _ _ (by decide), hmul, hfour, hindex,
      Int.tdiv_eq_ediv_of_nonneg (by omega)]
    omega
  refine ⟨?_, fun h => ?_⟩
  · rw [codeIndex?, hsub, hmod, hdiv]
    simp only [hlow, decide_false, Bool.false_or, bne_self_eq_false, Bool.false_eq_true, if_false]
    rw [Int32.toNatClampNeg, hindex, Int.toNat_natCast]
  · rw [h] at haddr
    have hzero : haltAddress.toInt = 0 := by decide
    omega

/-! ### The start of a run -/

theorem reg_start_ra (s : State) (pc : ℕ) : (s.start pc).reg Register.ra = haltAddress := by
  show (((s.setReg _ _).setReg _ _).setReg _ _).reg Register.ra = haltAddress
  rw [State.reg_setReg_of_ne _ _ (by decide), State.reg_setReg_of_ne _ _ (by decide),
    State.reg_setReg_self _ _ (by decide)]

theorem reg_start_sp (s : State) (pc : ℕ) : (s.start pc).reg Register.sp = stackTop := by
  show (((s.setReg _ _).setReg _ _).setReg _ _).reg Register.sp = stackTop
  rw [State.reg_setReg_of_ne _ _ (by decide), State.reg_setReg_self _ _ (by decide)]

theorem reg_start_s0 (s : State) (pc : ℕ) : (s.start pc).reg Register.s0 = stackTop := by
  show (((s.setReg _ _).setReg _ _).setReg _ _).reg Register.s0 = stackTop
  rw [State.reg_setReg_self _ _ (by decide)]

/-! ### Steps -/

/-- The instruction at the counter is carried out, and the machine goes on. -/
def Advances (names : Names) (code : Listing) (s s' : State) : Prop :=
  ∃ i op, code.instructions[s.pc]? = some i ∧ i.operation = .ok op ∧
    step names code s op = (s', .running)

/-- The instruction at the counter, which has that mnemonic, stops the machine with a trap. -/
def Traps (names : Names) (code : Listing) (s : State) (mnemonic : String) (operands : List Operand)
    (t : Trap) (s' : State) : Prop :=
  ∃ i op, code.instructions[s.pc]? = some i ∧ i.mnemonic = mnemonic ∧ i.operands = operands ∧
    i.operation = .ok op ∧ step names code s op = (s', .trapped t)

/-- The instruction at the counter ends the program. -/
def Halts (names : Names) (code : Listing) (s s' : State) : Prop :=
  ∃ i op, code.instructions[s.pc]? = some i ∧ i.operation = .ok op ∧
    step names code s op = (s', .halted)

/-- The machine goes from one state to another in that many steps. -/
def Steps (names : Names) (code : Listing) : ℕ → State → State → Prop
  | 0, s, s' => s = s'
  | n + 1, s, s'' => ∃ s', Advances names code s s' ∧ Steps names code n s' s''

section

variable {names : Names} {code : Listing}

theorem Advances.unique {s s₁ s₂ : State} (h₁ : Advances names code s s₁)
    (h₂ : Advances names code s s₂) :
    s₁ = s₂ := by
  obtain ⟨i, op, hi, hop, hstep₁⟩ := h₁
  obtain ⟨i', op', hi', hop', hstep₂⟩ := h₂
  obtain rfl := Option.some.inj (hi.symm.trans hi')
  obtain rfl := Except.ok.inj (hop.symm.trans hop')
  exact congrArg Prod.fst (hstep₁.symm.trans hstep₂)

theorem Traps.not_advances {s s₁ s₂ : State} {mnemonic : String} {operands : List Operand}
    {t : Trap} (h : Traps names code s mnemonic operands t s₁) : ¬ Advances names code s s₂ := by
  rintro ⟨i', op', hi', hop', hrunning⟩
  obtain ⟨i, op, hi, -, -, hop, htrapped⟩ := h
  obtain rfl := Option.some.inj (hi.symm.trans hi')
  obtain rfl := Except.ok.inj (hop.symm.trans hop')
  cases htrapped.symm.trans hrunning

theorem Advances.steps {s s' : State} (h : Advances names code s s') : Steps names code 1 s s' :=
  ⟨s', h, rfl⟩

theorem Steps.trans {m n : ℕ} {s s' s'' : State} (h : Steps names code m s s')
    (h' : Steps names code n s' s'') : Steps names code (m + n) s s'' := by
  induction m generalizing s with
  | zero =>
    obtain rfl : s = s' := h
    rw [Nat.zero_add]
    exact h'
  | succ m ih =>
    obtain ⟨t, ht, hrest⟩ := h
    rw [Nat.succ_add]
    exact ⟨t, ht, ih hrest⟩

theorem Steps.split {m n : ℕ} {s s'' : State} (h : Steps names code (m + n) s s'') :
    ∃ s', Steps names code m s s' ∧ Steps names code n s' s'' := by
  induction m generalizing s with
  | zero =>
    rw [Nat.zero_add] at h
    exact ⟨s, rfl, h⟩
  | succ m ih =>
    rw [Nat.succ_add] at h
    obtain ⟨t, ht, hrest⟩ := h
    obtain ⟨s', hs', hs''⟩ := ih hrest
    exact ⟨s', ⟨t, ht, hs'⟩, hs''⟩

variable {options : Options} (hnames : options.names = names)

include hnames

theorem runSteps_of_steps {n : ℕ} {s s' : State} (h : Steps names code n s s') (steps left : ℕ) :
    runSteps options code s steps (n + left) = runSteps options code s' (steps + n) left := by
  induction n generalizing s steps with
  | zero =>
    obtain rfl : s = s' := h
    rw [Nat.zero_add, Nat.add_zero]
  | succ n ih =>
    obtain ⟨t, ⟨i, op, hi, hop, hstep⟩, hrest⟩ := h
    rw [Nat.succ_add, runSteps, hi]
    simp only [hop, hnames, hstep]
    rw [ih hrest, Nat.add_right_comm steps 1 n, Nat.add_assoc steps n 1]

theorem runSteps_of_halts {s s' : State} (h : Halts names code s s') (steps left : ℕ) :
    runSteps options code s steps (left + 1) = ⟨.ok s'.exit, steps + 1, s'⟩ := by
  obtain ⟨i, op, hi, hop, hstep⟩ := h
  rw [runSteps, hi]
  simp only [hop, hnames, hstep]

theorem runSteps_of_traps {s s' : State} {mnemonic : String} {operands : List Operand} {t : Trap}
    (h : Traps names code s mnemonic operands t s') (steps left : ℕ) :
    ∃ i ∈ code.instructions, i.mnemonic = mnemonic ∧ i.operands = operands ∧
      runSteps options code s steps (left + 1) =
      ⟨.error (.trap i.line mnemonic t), steps + 1, s'⟩ := by
  obtain ⟨i, op, hi, hm, hos, hop, hstep⟩ := h
  refine ⟨i, Array.mem_of_getElem? hi, hm, hos, ?_⟩
  rw [runSteps, hi]
  simp only [hop, hnames, hstep, hm]

end

end RvBackend.Machine
