import RvBackend.Proofs.Machine.Effects
import RvBackend.Proofs.Meaning.Words
import RvBackend.Proofs.Simulation.Memory

/-! # Straight-line code

Code without jumps and calls runs from its first instruction to its last, whatever the state of the
machine is. Its operators only change registers, and so the whole effect of such a piece of code is
a function of the registers.

* `Straight names code n s s'`: the machine goes from `s` to `s'` by `n` instructions that stand one
  after the other.
* `line?`: the effect of operations on registers, `straight_of_line?`: their code.
* `straight_operation`, `straight_unaryOperation`, `straight_push`, `straight_pop`: the pieces of
  the code of an expression. -/

namespace RvBackend.Simulation

open Asm (Register Line opsOf)
open Machine
  (State Listing Names Operation Advances Steps CodeAt Fetched opCount codeAt_append opCount_append)

/-- The machine takes that many steps, each to the next instruction. -/
def Straight (names : Names) (code : Listing) : ℕ → State → State → Prop
  | 0, s, s' => s = s'
  | n + 1, s, s'' => ∃ s', Advances names code s s' ∧ s'.pc = s.pc + 1 ∧
      Straight names code n s' s''

variable {names : Names} {code : Listing} {s s' s'' : State} {m n : ℕ}

theorem Straight.single (h : Advances names code s s') (hpc : s'.pc = s.pc + 1) :
    Straight names code 1 s s' :=
  ⟨s', h, hpc, rfl⟩

theorem Straight.trans (h : Straight names code m s s') (h' : Straight names code n s' s'') :
    Straight names code (m + n) s s'' := by
  induction m generalizing s with
  | zero =>
    obtain rfl : s = s' := h
    rw [Nat.zero_add]
    exact h'
  | succ m ih =>
    obtain ⟨t, ht, hpc, hrest⟩ := h
    rw [Nat.succ_add]
    exact ⟨t, ht, hpc, ih hrest⟩

theorem Straight.pc (h : Straight names code n s s') : s'.pc = s.pc + n := by
  induction n generalizing s with
  | zero =>
    obtain rfl : s = s' := h
    rfl
  | succ n ih =>
    obtain ⟨t, -, hpc, hrest⟩ := h
    rw [ih hrest, hpc]
    omega

theorem Straight.steps (h : Straight names code n s s') : Steps names code n s s' := by
  induction n generalizing s with
  | zero => exact h
  | succ n ih =>
    obtain ⟨t, ht, -, hrest⟩ := h
    exact ⟨t, ht, ih hrest⟩

/-! ### Operations on registers -/

/-- The register that an operation on registers changes, and the word it puts there. -/
def put? (s : State) : Operation → Option (Register × Int32)
  | .loadNumber rd n => some (rd, n)
  | .unary op rd rs => some (rd, op.apply (s.reg rs))
  | .binary op rd rs rs' => some (rd, op.apply (s.reg rs) (s.reg rs'))
  | .immediate op rd rs n => some (rd, op.apply (s.reg rs) n)
  | _ => none

theorem destination?_of_put? {op : Operation} {p : Register × Int32} (h : put? s op = some p) :
    op.destination? = some p.1 := by
  cases op <;> cases h <;> rfl

/-- The state after operations on registers, one after the other. -/
def line? (s : State) : List Operation → Option State
  | [] => some s
  | op :: ops => (put? s op).bind fun p => line? (s.setReg p.1 p.2).next ops

/-- The operations of lines. -/
def operationsOf (lines : List Line) : Option (List Operation) :=
  (opsOf lines).mapM fun p => (p.2.mapM Asm.Operand.translate?).bind fun os =>
    (Operation.decode p.1 os).toOption

theorem step_of_put? {op : Operation} {p : Register × Int32} (h : put? s op = some p) :
    Machine.step names code s op = ((s.setReg p.1 p.2).next, .running) := by
  cases op <;> cases h <;> rfl

theorem advances_of_put? {m : String} {os : List Asm.Operand} {op : Operation}
    {p : Register × Int32} (hfetched : Fetched code s.pc m os)
    (hop : (os.mapM Asm.Operand.translate?).bind (fun os => (Operation.decode m os).toOption) =
      some op)
    (h : put? s op = some p) : Advances names code s (s.setReg p.1 p.2).next := by
  obtain ⟨os', hos, hdecode⟩ := Option.bind_eq_some_iff.mp hop
  refine hfetched.advances hos ?_ (step_of_put? h)
  cases hd : Operation.decode m os' with
  | error e =>
    rw [hd] at hdecode
    cases hdecode
  | ok op' =>
    rw [hd] at hdecode
    exact congrArg Except.ok (Option.some.inj hdecode)

/-- Code of operations on registers has their effect. -/
theorem straight_of_line? {lines : List Line} {ops : List Operation}
    (hops : operationsOf lines = some ops) (hcode : CodeAt code s.pc lines)
    (h : line? s ops = some s') : Straight names code (opCount lines) s s' := by
  induction lines generalizing s ops with
  | nil =>
    cases hops
    exact Option.some.inj h
  | cons l ls ih =>
    obtain ⟨content, comment⟩ := l
    cases content with
    | blank => exact ih hops hcode h
    | label name => exact ih hops hcode.2 h
    | op m os =>
      have hcons : operationsOf (⟨.op m os, comment⟩ :: ls) =
          ((os.mapM Asm.Operand.translate?).bind fun os => (Operation.decode m os).toOption).bind
          fun op =>
            (operationsOf ls).bind fun ops => some (op :: ops) :=
        List.mapM_cons
      rw [hcons] at hops
      obtain ⟨op, hop, hops⟩ := Option.bind_eq_some_iff.mp hops
      obtain ⟨ops', hops', hsome⟩ := Option.bind_eq_some_iff.mp hops
      cases hsome
      obtain ⟨p, hp, hrest⟩ := Option.bind_eq_some_iff.mp h
      have hpc : (s.setReg p.1 p.2).next.pc = s.pc + 1 := by rw [State.pc_next, State.pc_setReg]
      exact ⟨_, advances_of_put? hcode.1 hop hp, hpc, ih hops' (hcode.2.at hpc) hrest⟩

theorem Still.setReg (s : State) (r : Register) (v : Int32) : Still [r] s (s.setReg r v).next := by
  refine ⟨fun r' hr' => ?_, by simp, by simp, by simp⟩
  rw [State.reg_next, State.reg_setReg_of_ne _ _ (by simpa using hr')]

theorem still_of_line? {rs : List Register} {ops : List Operation} (h : line? s ops = some s')
    (hrs : ∀ op ∈ ops, ∀ r, op.destination? = some r → r ∈ rs) : Still rs s s' := by
  induction ops generalizing s with
  | nil =>
    cases h
    exact ⟨fun _ _ => rfl, fun _ => rfl, rfl, rfl⟩
  | cons op ops ih =>
    obtain ⟨p, hp, hrest⟩ := Option.bind_eq_some_iff.mp h
    rw [List.forall_mem_cons] at hrs
    refine ((Still.setReg s p.1 p.2).trans (ih hrest hrs.2)).mono ?_
    simpa using hrs.1 p.1 (destination?_of_put? hp)

/-! ### Operators -/

section

variable (s : State) (v : Int32)

@[simp] theorem reg_set_t0 : (s.setReg Register.t0 v).reg Register.t0 = v :=
  State.reg_setReg_self s v (by decide)

@[simp] theorem reg_set_t1 : (s.setReg Register.t1 v).reg Register.t1 = v :=
  State.reg_setReg_self s v (by decide)

@[simp] theorem reg_t1_set_t0 : (s.setReg Register.t0 v).reg Register.t1 = s.reg Register.t1 :=
  State.reg_setReg_of_ne s v (by decide)

@[simp] theorem reg_t0_set_t1 : (s.setReg Register.t1 v).reg Register.t0 = s.reg Register.t0 :=
  State.reg_setReg_of_ne s v (by decide)

end

/-- The operations of a comparison with zero. -/
def comparisonOperations : Operator → List Operation
  | .equal => [.unary .seqz .t0 .t0]
  | .notEqual => [.unary .snez .t0 .t0]
  | .less => [.unary .sltz .t0 .t0]
  | .greater => [.unary .sgtz .t0 .t0]
  | .lessOrEqual => [.unary .sgtz .t0 .t0, .immediate .xor .t0 .t0 1]
  | .greaterOrEqual => [.unary .sltz .t0 .t0, .immediate .xor .t0 .t0 1]
  | _ => []

/-- The operations of an operator on two words. -/
def binaryOperations : Operator → List Operation
  | .plus => [.binary .add .t0 .t0 .t1]
  | .minus => [.binary .sub .t0 .t0 .t1]
  | .times => [.binary .mul .t0 .t0 .t1]
  | .divide => [.binary .div .t0 .t0 .t1]
  | .mod => [.binary .rem .t0 .t0 .t1]
  | .and => [.unary .snez .t0 .t0, .unary .snez .t1 .t1, .binary .and .t0 .t0 .t1]
  | .or => [.binary .or .t0 .t0 .t1, .unary .snez .t0 .t0]
  | op => .binary .sub .t0 .t0 .t1 :: comparisonOperations op

/-- The operations of an operator on one word. -/
def unaryOperations : Operator → List Operation
  | .not => [.unary .seqz .t0 .t0]
  | _ => [.unary .neg .t0 .t0]

theorem operationsOf_operation {loc : Location} {op : Operator} {lines : List Line}
    (h : Lower.operation loc op = .ok lines) : operationsOf lines = some (binaryOperations op) := by
  cases op <;> cases h <;> rfl

theorem operationsOf_unaryOperation {loc : Location} {op : Operator} {lines : List Line}
    (h : Lower.unaryOperation loc op = .ok lines) :
    operationsOf lines = some (unaryOperations op) := by
  cases op <;> cases h <;> rfl

theorem destination?_binaryOperations {op : Operator} :
    ∀ o ∈ binaryOperations op, ∀ r, o.destination? = some r → r ∈ [Register.t0, Register.t1] := by
  cases op <;> simp [binaryOperations, comparisonOperations, Operation.destination?]

theorem destination?_unaryOperations {op : Operator} :
    ∀ o ∈ unaryOperations op, ∀ r, o.destination? = some r → r ∈ [Register.t0, Register.t1] := by
  cases op <;> simp [unaryOperations, Operation.destination?]

theorem line?_binaryOperations {loc : Location} {op : Operator} {lines : List Line}
    (h : Lower.operation loc op = .ok lines) (s : State) :
    ∃ s', line? s (binaryOperations op) = some s' ∧
      Meaning.binary? (s.reg Register.t0) (s.reg Register.t1) op = some (s'.reg Register.t0) := by
  obtain ⟨hplus, hminus, htimes, hdivide, hmod, hand, hor, hequal, hnotEqual, hless, hgreater,
    hlessOrEqual, hgreaterOrEqual⟩ :=
    Meaning.binary?_eq_some (s.reg Register.t0) (s.reg Register.t1)
  cases op with
  | plus => exact ⟨_, rfl, by simp [hplus, Machine.BinaryOp.apply]⟩
  | minus => exact ⟨_, rfl, by simp [hminus, Machine.BinaryOp.apply]⟩
  | times => exact ⟨_, rfl, by simp [htimes, Machine.BinaryOp.apply]⟩
  | divide => exact ⟨_, rfl, by simp [hdivide, Machine.BinaryOp.apply]⟩
  | mod => exact ⟨_, rfl, by simp [hmod, Machine.BinaryOp.apply]⟩
  | and => exact ⟨_, rfl, by simp [hand, Machine.BinaryOp.apply, Machine.UnaryOp.apply]⟩
  | or => exact ⟨_, rfl, by simp [hor, Machine.BinaryOp.apply, Machine.UnaryOp.apply]⟩
  | equal => exact ⟨_, rfl, by simp [hequal, Machine.BinaryOp.apply, Machine.UnaryOp.apply]⟩
  | notEqual => exact ⟨_, rfl, by simp [hnotEqual, Machine.BinaryOp.apply, Machine.UnaryOp.apply]⟩
  | less => exact ⟨_, rfl, by simp [hless, Machine.BinaryOp.apply, Machine.UnaryOp.apply]⟩
  | greater => exact ⟨_, rfl, by simp [hgreater, Machine.BinaryOp.apply, Machine.UnaryOp.apply]⟩
  | lessOrEqual =>
    exact ⟨_, rfl, by simp [hlessOrEqual, Machine.BinaryOp.apply, Machine.UnaryOp.apply]⟩
  | greaterOrEqual =>
    exact ⟨_, rfl, by simp [hgreaterOrEqual, Machine.BinaryOp.apply, Machine.UnaryOp.apply]⟩
  | not => cases h
  | neg => cases h
  | other _ => cases h

theorem line?_unaryOperations {loc : Location} {op : Operator} {lines : List Line}
    (h : Lower.unaryOperation loc op = .ok lines) (s : State) :
    ∃ s', line? s (unaryOperations op) = some s' ∧
      Meaning.unary? (s.reg Register.t0) op = some (s'.reg Register.t0) := by
  obtain ⟨hneg, hminus, hnot⟩ := Meaning.unary?_eq_some (s.reg Register.t0)
  cases op with
  | neg => exact ⟨_, rfl, by simp [hneg, Machine.UnaryOp.apply]⟩
  | minus => exact ⟨_, rfl, by simp [hminus, Machine.UnaryOp.apply]⟩
  | not => exact ⟨_, rfl, by simp [hnot, Machine.UnaryOp.apply]⟩
  | _ => cases h

variable (names)

/-- The code of an operator leaves its result in `t0`. -/
theorem straight_operation {loc : Location} {op : Operator} {lines : List Line}
    (h : Lower.operation loc op = .ok lines) (hcode : CodeAt code s.pc lines) :
    ∃ s', Straight names code (opCount lines) s s' ∧
      Meaning.binary? (s.reg Register.t0) (s.reg Register.t1) op = some (s'.reg Register.t0) ∧
      Still [Register.t0, Register.t1] s s' := by
  obtain ⟨s', hline, hv⟩ := line?_binaryOperations h s
  exact ⟨s', straight_of_line? (operationsOf_operation h) hcode hline, hv,
    still_of_line? hline destination?_binaryOperations⟩

theorem straight_unaryOperation {loc : Location} {op : Operator} {lines : List Line}
    (h : Lower.unaryOperation loc op = .ok lines) (hcode : CodeAt code s.pc lines) :
    ∃ s', Straight names code (opCount lines) s s' ∧
      Meaning.unary? (s.reg Register.t0) op = some (s'.reg Register.t0) ∧
      Still [Register.t0, Register.t1] s s' := by
  obtain ⟨s', hline, hv⟩ := line?_unaryOperations h s
  exact ⟨s', straight_of_line? (operationsOf_unaryOperation h) hcode hline, hv,
    still_of_line? hline destination?_unaryOperations⟩

/-! ### Words on the stack -/

theorem dvd_sub_four {a : Int32} (h : 4 ∣ a.toInt) : 4 ∣ (a - 4).toInt := by
  have hfour : (4 : Int32).toInt = 4 := by decide
  rw [Int32.toInt_sub, hfour, Int.bmod_def]
  split <;> omega

/-- The top of the stack is at an address and holds a word there; nothing else changes but `t0` and
`t1`. -/
structure Replaced (a v : Int32) (s s' : State) : Prop where
  sp : s'.reg Register.sp = a
  top : s'.cell a = v
  regs : ∀ r ∉ [Register.t0, Register.t1, Register.sp], s'.reg r = s.reg r
  cells : ∀ b, b ≠ a → s'.cell b = s.cell b
  input : s'.input = s.input
  output : s'.output = s.output

theorem Still.replaced {rs : List Register} {a v : Int32} (h : Still rs s s')
    (hrs : rs ⊆ [Register.t0, Register.t1, Register.sp]) (h' : Replaced a v s' s'') :
    Replaced a v s s'' :=
  ⟨h'.sp, h'.top, fun r hr => (h'.regs r hr).trans (h.regs r fun hmem => hr (hrs hmem)),
    fun b hb => (h'.cells b hb).trans (h.cells b), h'.input.trans h.input, h'.output.trans h.output⟩

theorem straight_set {r : Register} {v : Int32} (hstep : Advances names code s (s.setReg r v).next)
    (hr : r.val ≠ 0) :
    ∃ s', Straight names code 1 s s' ∧ s'.reg r = v ∧ Still [r] s s' := by
  refine ⟨_, .single hstep (by simp), ?_, Still.setReg s r v⟩
  rw [State.reg_next, State.reg_setReg_self _ _ hr]

theorem straight_poke {a v : Int32} (hstep : Advances names code s (s.poke a v).next) :
    ∃ s', Straight names code 1 s s' ∧ Poked a v s s' := by
  refine ⟨_, .single hstep rfl, fun _ => rfl, ?_, fun b hb => ?_, rfl, rfl⟩
  · rw [State.cell_next, State.cell_poke_self]
  · rw [State.cell_next, State.cell_poke_of_ne _ _ hb]

theorem straight_push {r : String} {ρ : Register} (hr : Register.ofName? r = some ρ)
    (hρ : ρ ≠ Register.sp) (hcode : CodeAt code s.pc (Lower.push (.reg r)))
    (hsp : 4 ∣ (s.reg Register.sp).toInt) :
    ∃ s', Straight names code 2 s s' ∧ Replaced (s.reg Register.sp - 4) (s.reg ρ) s s' := by
  obtain ⟨haddi, hsw, -⟩ := hcode
  obtain ⟨s₁, h₁, hreg, hstill⟩ :=
    straight_set names (Machine.advances_addi ofName?_sp ofName?_sp haddi) (by decide)
  replace hreg : s₁.reg Register.sp = s.reg Register.sp - 4 := by
    rw [hreg, Int32.sub_eq_add_neg]
    rfl
  obtain ⟨s₂, h₂, hpoked⟩ := straight_poke names
    (Machine.advances_sw hr ofName?_sp (hsw.at h₁.pc) (add_offset_zero hreg) (dvd_sub_four hsp))
  refine ⟨s₂, h₁.trans h₂,
    hstill.replaced (by simp) ⟨by rw [hpoked.regs, hreg], ?_, fun r' _ => hpoked.regs r',
      hpoked.cells, hpoked.input, hpoked.output⟩⟩
  rw [hpoked.cell, hstill.regs _ (by simpa using hρ)]

theorem straight_pop {r : String} {ρ : Register} (hr : Register.ofName? r = some ρ)
    (hρ : ρ ≠ Register.sp) (hzero : ρ.val ≠ 0) (hcode : CodeAt code s.pc (Lower.pop (.reg r)))
    (hsp : 4 ∣ (s.reg Register.sp).toInt) : ∃ s', Straight names code 2 s s' ∧ Popped ρ s s' := by
  obtain ⟨hlw, haddi, -⟩ := hcode
  obtain ⟨s₁, h₁, hreg, hstill⟩ := straight_set names
    (Machine.advances_lw hr ofName?_sp hlw (add_offset_zero rfl) hsp) hzero
  obtain ⟨s₂, h₂, hreg', hstill'⟩ := straight_set names
    (Machine.advances_addi ofName?_sp ofName?_sp (haddi.at h₁.pc)) (by decide)
  refine ⟨s₂, h₁.trans h₂, ?_, ?_, hstill.trans hstill'⟩
  · rw [hstill'.regs _ (by simpa using hρ), hreg]
  · rw [hreg', hstill.regs _ (by simpa using hρ.symm)]
    rfl

/-! ### Operators on the stack -/

/-- The operator of one word puts its result in the place of the word. -/
theorem straight_unary {loc : Location} {op : Operator} {lines : List Line}
    (h : Lower.unaryOperation loc op = .ok lines)
    (hcode : CodeAt code s.pc (Lower.pop Lower.t0 ++ lines ++ Lower.push Lower.t0))
    (hsp : 4 ∣ (s.reg Register.sp).toInt) :
    ∃ s' v,
      Straight names code (opCount (Lower.pop Lower.t0 ++ lines ++ Lower.push Lower.t0)) s s' ∧
      Meaning.unary? (s.cell (s.reg Register.sp)) op = some v ∧
      Replaced (s.reg Register.sp) v s s' := by
  simp only [codeAt_append, opCount_append, Machine.opCount_pop, Machine.opCount_push] at hcode ⊢
  obtain ⟨⟨hpop, hlines⟩, hpush⟩ := hcode
  obtain ⟨s₁, h₁, hpopped⟩ := straight_pop names ofName?_t0 (by decide) (by decide) hpop hsp
  obtain ⟨s₂, h₂, hv, hstill⟩ := straight_unaryOperation names h (hlines.at h₁.pc)
  have hsp₂ : s₂.reg Register.sp = s.reg Register.sp + 4 := by
    rw [hstill.regs _ (by decide), hpopped.sp]
  obtain ⟨s₃, h₃, hreplaced⟩ :=
    straight_push names ofName?_t0 (by decide) (hpush.at (h₁.trans h₂).pc) (hsp₂ ▸ dvd_add_four hsp)
  rw [hsp₂, Int32.add_sub_cancel] at hreplaced
  rw [hpopped.reg] at hv
  exact ⟨s₃, _, (h₁.trans h₂).trans h₃, hv, (hpopped.still.trans hstill).replaced (by simp)
    hreplaced⟩

/-- The code behind the operands of an operator on two words. -/
def combination (lines : List Line) : List Line :=
  Lower.pop Lower.t1 ++ Lower.pop Lower.t0 ++ lines ++ Lower.push Lower.t0

theorem append_combination (lc rc lines : List Line) :
    lc ++ rc ++ Lower.pop Lower.t1 ++ Lower.pop Lower.t0 ++ lines ++ Lower.push Lower.t0 =
      lc ++ (rc ++ combination lines) := by
  simp only [combination, List.append_assoc]

/-- The operator of two words puts its result in the place of the upper one, which is the left
operand. -/
theorem straight_binary {loc : Location} {op : Operator} {lines : List Line}
    (h : Lower.operation loc op = .ok lines) (hcode : CodeAt code s.pc (combination lines))
    (hsp : 4 ∣ (s.reg Register.sp).toInt) :
    ∃ s' v, Straight names code (opCount (combination lines)) s s' ∧
      Meaning.binary? (s.cell (s.reg Register.sp + 4)) (s.cell (s.reg Register.sp)) op = some v ∧
      Replaced (s.reg Register.sp + 4) v s s' := by
  simp only [combination, codeAt_append, opCount_append, Machine.opCount_pop,
    Machine.opCount_push] at hcode ⊢
  obtain ⟨⟨⟨hpop1, hpop0⟩, hlines⟩, hpush⟩ := hcode
  obtain ⟨s₁, h₁, hpopped₁⟩ := straight_pop names ofName?_t1 (by decide) (by decide) hpop1 hsp
  obtain ⟨s₂, h₂, hpopped₂⟩ :=
    straight_pop names ofName?_t0 (by decide) (by decide) (hpop0.at h₁.pc)
      (hpopped₁.sp ▸ dvd_add_four hsp)
  obtain ⟨s₃, h₃, hv, hstill⟩ := straight_operation names h (hlines.at (h₁.trans h₂).pc)
  have hsp₃ : s₃.reg Register.sp = s.reg Register.sp + 4 + 4 := by
    rw [hstill.regs _ (by decide), hpopped₂.sp, hpopped₁.sp]
  obtain ⟨s₄, h₄, hreplaced⟩ :=
    straight_push names ofName?_t0 (by decide) (hpush.at ((h₁.trans h₂).trans h₃).pc)
      (hsp₃ ▸ dvd_add_four (dvd_add_four hsp))
  rw [hsp₃, Int32.add_sub_cancel] at hreplaced
  rw [hpopped₂.reg, hpopped₁.sp, hpopped₁.still.cells, hpopped₂.still.regs _ (by decide),
    hpopped₁.reg] at hv
  exact ⟨s₄, _, ((h₁.trans h₂).trans h₃).trans h₄, hv,
    ((hpopped₁.still.trans hpopped₂.still).trans hstill).replaced (by simp) hreplaced⟩

/-! ### Code on its own -/

/-- The instruction of a mnemonic with operands, and none of an operand that names nothing. -/
def instruction (p : String × List Asm.Operand) : Machine.Instruction where
  line := 0
  mnemonic := p.1
  operands := (p.2.mapM Asm.Operand.translate?).getD []

/-- Lines as a listing of their own. -/
def listed (lines : List Line) : Listing where
  instructions := ((opsOf lines).map instruction).toArray

theorem codeAt_of_fetched {lines : List Line} (hlabels : Asm.labelsOf lines = []) {i : ℕ}
    (h : ∀ k p, (opsOf lines)[k]? = some p → Fetched code (i + k) p.1 p.2) :
    CodeAt code i lines := by
  induction lines generalizing i with
  | nil => trivial
  | cons l ls ih =>
    obtain ⟨content, comment⟩ := l
    cases content with
    | blank => exact ih hlabels h
    | label name => cases hlabels
    | op m os =>
      refine ⟨h 0 (m, os) rfl, ih hlabels fun k p hp => ?_⟩
      rw [Nat.add_assoc, Nat.add_comm 1 k]
      exact h (k + 1) p hp

theorem codeAt_listed {lines : List Line} (hlabels : Asm.labelsOf lines = [])
    (hops : ∀ p ∈ opsOf lines, (p.2.mapM Asm.Operand.translate?).isSome)
    (hcode : code.instructions = (listed lines).instructions) : CodeAt code 0 lines := by
  refine codeAt_of_fetched hlabels fun k p hp => ⟨instruction p, ?_, rfl, ?_, rfl⟩
  · rw [hcode, Nat.zero_add]
    simp [listed, hp]
  · obtain ⟨os, hos⟩ := Option.isSome_iff_exists.mp (hops p (List.mem_of_getElem? hp))
    rw [hos, instruction, hos]
    rfl

end RvBackend.Simulation
