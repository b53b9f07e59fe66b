import RvBackend.Proofs.Simulation.StraightLine

/-! # The stack that an expression needs

An expression without calls is evaluated from any state of the machine, on the words below the stack
pointer. While the right side of an operator is evaluated, the value of its left side lies one word
higher. How many words that takes can be read off the expression, and nothing but these words
changes.

* `Expr.stackWords` counts these words, `InStack` says which they are.
* `Expr.value?` is the value of an expression.
* `straight_expression`: the code of an expression, by induction over the expression.
* `expression_computed`: the same, with the words above the stack pointer. -/

namespace RvBackend

/-- The words below the stack pointer that the evaluation of an expression uses. -/
def Expr.stackWords : Expr → ℕ
  | .binary _ _ left right => max left.stackWords (right.stackWords + 1)
  | .unary _ _ operand => operand.stackWords
  | _ => 1

/-- The names of the variables of an expression, those in calls aside. -/
def Expr.variables : Expr → List String
  | .variable r => [r.name]
  | .binary _ _ left right => left.variables ++ right.variables
  | .unary _ _ operand => operand.variables
  | _ => []

/-- The value of an expression without calls whose variables have those values. -/
def Expr.value? (read : String → Option Int32) : Expr → Option Int32
  | .constant c => some (Int32.ofInt c.value)
  | .variable r => read r.name
  | .binary _ op left right => do Meaning.binary? (← left.value? read) (← right.value? read) op
  | .unary _ op operand => do Meaning.unary? (← operand.value? read) op
  | _ => none

theorem Expr.value?_congr {read read' : String → Option Int32} : ∀ {e : Expr},
    (∀ name ∈ e.variables, read' name = read name) → e.value? read' = e.value? read
  | .missing, _ => rfl
  | .constant _, _ => rfl
  | .variable r, h => h r.name (List.mem_singleton_self _)
  | .binary _ _ left right, h => by
    rw [Expr.variables, List.forall_mem_append] at h
    rw [Expr.value?, Expr.value?, Expr.value?_congr h.1, Expr.value?_congr h.2]
  | .unary _ _ operand, h => by
    rw [Expr.variables] at h
    rw [Expr.value?, Expr.value?, Expr.value?_congr h]
  | .call .., _ => rfl

theorem Expr.stackWords_pos (e : Expr) : 0 < e.stackWords := by
  induction e using Expr.stackWords.induct with
  | case1 _ _ left right ihl ihr =>
    rw [Expr.stackWords]
    omega
  | case2 _ _ operand ih => exact ih
  | case3 e hbinary hunary =>
    cases e with
    | binary loc op left right => exact absurd rfl (hbinary loc op left right)
    | unary loc op operand => exact absurd rfl (hunary loc op operand)
    | _ => exact Nat.one_pos

namespace Simulation

open Asm (Register Line)
open Machine (State Listing Names CodeAt opCount codeAt_append opCount_append)

/-! ### Words below the stack pointer -/

/-- An address is one of so many words below the stack pointer. -/
def InStack (sp : Int32) (words : ℕ) (a : Int32) : Prop :=
  ∃ i < words, a = sp - 4 * Int32.ofNat (i + 1)

instance (sp : Int32) (words : ℕ) (a : Int32) : Decidable (InStack sp words a) :=
  inferInstanceAs (Decidable (∃ i < words, a = sp - 4 * Int32.ofNat (i + 1)))

variable {sp a : Int32} {m n : ℕ}

theorem InStack.mono (h : InStack sp m a) (hmn : m ≤ n) : InStack sp n a := by
  obtain ⟨i, hi, rfl⟩ := h
  exact ⟨i, by omega, rfl⟩

theorem inStack_sub_four (sp : Int32) (hn : 0 < n) : InStack sp n (sp - 4) := ⟨0, hn, rfl⟩

theorem InStack.succ (h : InStack (sp - 4) n a) : InStack sp (n + 1) a := by
  obtain ⟨i, hi, rfl⟩ := h
  refine ⟨i + 1, by omega, ?_⟩
  rw [Int32.ofNat_add (i + 1) 1]
  grind

theorem toNat_sub_words {i : ℕ} (hi : i < 2 ^ 30) : (sp - 4 * Int32.ofNat i).toUInt32.toNat =
    (2 ^ 32 - 4 * i + sp.toUInt32.toNat) % 2 ^ 32 := by
  have hwords : (4 * Int32.ofNat i).toUInt32.toNat = 4 * i := by
    rw [Int32.toUInt32_mul, Int32.toUInt32_ofNat', UInt32.toNat_mul, UInt32.toNat_ofNat']
    show 4 * _ % _ = _
    omega
  rw [Int32.toUInt32_sub, UInt32.toNat_sub, hwords]

/-- The word at the pointer is not among those below it, unless they fill the memory. -/
theorem not_inStack_self (hn : n < 2 ^ 30) : ¬ InStack sp n sp := by
  rintro ⟨i, hi, h⟩
  have hnat : (sp - 4 * Int32.ofNat (i + 1)).toUInt32.toNat = _ := toNat_sub_words (by omega)
  rw [← h] at hnat
  have hlt := sp.toUInt32.toNat_lt
  omega

/-- A stack that does not reach below the first address lies below its pointer. -/
theorem InStack.lt (h : InStack sp n a) (hn : 4 * n ≤ sp.toUInt32.toNat) :
    a.toUInt32 < sp.toUInt32 := by
  obtain ⟨i, hi, rfl⟩ := h
  have hlt := sp.toUInt32.toNat_lt
  rw [UInt32.lt_iff_toNat_lt, toNat_sub_words (by omega)]
  omega

/-! ### Evaluation -/

/-- The address of the variable that a name stands for: that of its label, or of its slot. -/
def addressOf? (code : Listing) (scopes : Scopes) (s : State) (name : String) : Option Int32 :=
  (scopes.find? name).bind fun e =>
    if e.isGlobal then (code.dataLabels.lookup e.name).map UInt32.toInt32
    else some (s.reg Register.s0 + Int32.ofInt e.slot.toInt)

/-- The variables of an expression have words of their own, aside from so many words of the
stack. -/
def Apart (code : Listing) (scopes : Scopes) (s : State) (words : ℕ) (e : Expr) : Prop :=
  ∀ name ∈ e.variables, ∃ a, addressOf? code scopes s name = some a ∧ 4 ∣ a.toInt ∧
    ¬ InStack (s.reg Register.sp) words a

/-- The value of an expression by the words of its variables. -/
def valueIn? (code : Listing) (scopes : Scopes) (s : State) (e : Expr) : Option Int32 :=
  e.value? fun name => (addressOf? code scopes s name).map s.cell

/-- A word has been put on the stack, and nothing else changes but `t0`, `t1` and words of the
stack. -/
structure Computed (words : ℕ) (v : Int32) (s s' : State) : Prop where
  sp : s'.reg Register.sp = s.reg Register.sp - 4
  top : s'.cell (s'.reg Register.sp) = v
  regs : ∀ r ∉ [Register.t0, Register.t1, Register.sp], s'.reg r = s.reg r
  cells : ∀ a, ¬ InStack (s.reg Register.sp) words a → s'.cell a = s.cell a
  input : s'.input = s.input
  output : s'.output = s.output

variable {names : Names} {code : Listing} {scopes : Scopes} {s s₁ s₂ s₃ : State} {words : ℕ}
  {u v w : Int32}

theorem Computed.aligned (h : Computed words v s s₁) (hsp : 4 ∣ (s.reg Register.sp).toInt) :
    4 ∣ (s₁.reg Register.sp).toInt := by
  rw [h.sp]
  exact dvd_sub_four hsp

theorem Replaced.computed (h : Replaced (s.reg Register.sp - 4) v s s₁) (hwords : 0 < words) :
    Computed words v s s₁ := by
  refine ⟨h.sp, by rw [h.sp, h.top], h.regs, fun a ha => h.cells a fun heq => ha ?_, h.input,
    h.output⟩
  rw [heq]
  exact inStack_sub_four _ hwords

/-- The value of an operand is replaced by that of the operator. -/
theorem Computed.unary (h : Computed words u s s₁) (h' : Replaced (s₁.reg Register.sp) v s₁ s₂)
    (hwords : 0 < words) :
    Computed words v s s₂ := by
  refine ⟨by rw [h'.sp, h.sp], by rw [h'.sp, h'.top],
    fun r hr => (h'.regs r hr).trans (h.regs r hr), fun a ha => ?_, h'.input.trans h.input,
    h'.output.trans h.output⟩
  have hne : a ≠ s₁.reg Register.sp := by
    rintro rfl
    rw [h.sp] at ha
    exact ha (inStack_sub_four _ hwords)
  rw [h'.cells a hne, h.cells a ha]

theorem Computed.sp_add_four (h : Computed words v s s₁) :
    s₁.reg Register.sp + 4 = s.reg Register.sp := by
  rw [h.sp, Int32.sub_add_cancel]

section

variable (h₁ : Computed m u s s₁) (h₂ : Computed n w s₁ s₂)

include h₁ h₂

/-- The value of the left side is still there after the right side, which is evaluated below it. -/
theorem Computed.left (hn : n < 2 ^ 30) : s₂.cell (s₂.reg Register.sp + 4) = u := by
  rw [h₂.sp_add_four, h₂.cells _ (not_inStack_self hn), h₁.top]

/-- The values of two operands are replaced by that of the operator. -/
theorem Computed.binary (h₃ : Replaced (s₂.reg Register.sp + 4) v s₂ s₃) :
    Computed (max m (n + 1)) v s s₃ := by
  rw [h₂.sp_add_four] at h₃
  refine ⟨by rw [h₃.sp, h₁.sp], by rw [h₃.sp, h₃.top],
    fun r hr => (h₃.regs r hr).trans ((h₂.regs r hr).trans (h₁.regs r hr)), fun a ha => ?_,
    h₃.input.trans (h₂.input.trans h₁.input), h₃.output.trans (h₂.output.trans h₁.output)⟩
  have hleft : ¬ InStack (s.reg Register.sp) m a :=
    fun hin => ha (hin.mono (Nat.le_max_left m (n + 1)))
  have hright : ¬ InStack (s₁.reg Register.sp) n a := fun hin =>
    ha ((InStack.succ (h₁.sp ▸ hin)).mono (Nat.le_max_right m (n + 1)))
  have hne : a ≠ s₁.reg Register.sp := by
    rintro rfl
    rw [h₁.sp] at ha
    exact ha (inStack_sub_four _ (by omega))
  rw [h₃.cells a hne, h₂.cells a hright, h₁.cells a hleft]

end

/-! ### Variables -/

theorem Apart.mono {e : Expr} (h : Apart code scopes s n e) (hmn : m ≤ n) :
    Apart code scopes s m e := by
  intro name hname
  obtain ⟨a, ha, haligned, hout⟩ := h name hname
  exact ⟨a, ha, haligned, fun hin => hout (hin.mono hmn)⟩

/-- Variables outside the stack stay where they are and keep their words while a value is put on
it. -/
theorem Computed.apart {e : Expr} (h : Computed m v s s₁)
    (happart : Apart code scopes s (max m (n + 1)) e) :
    Apart code scopes s₁ n e ∧ valueIn? code scopes s₁ e = valueIn? code scopes s e := by
  have haddress : addressOf? code scopes s₁ = addressOf? code scopes s := by
    funext name
    rw [addressOf?, addressOf?, h.regs Register.s0 (by decide)]
  refine ⟨fun name hname => ?_, Expr.value?_congr fun name hname => ?_⟩
  · obtain ⟨a, ha, haligned, hout⟩ := happart name hname
    exact ⟨a, by rw [haddress, ha], haligned,
      fun hin => hout ((InStack.succ (h.sp ▸ hin)).mono (Nat.le_max_right m (n + 1)))⟩
  · obtain ⟨a, ha, -, hout⟩ := happart name hname
    rw [haddress, ha, Option.map_some, Option.map_some,
      h.cells a fun hin => hout (hin.mono (Nat.le_max_left m (n + 1)))]

variable (names)

theorem straight_loadAddress {e : Entry} {name : String} {a : Int32}
    (he : scopes.find? name = some e) (ha : addressOf? code scopes s name = some a)
    (hcode : CodeAt code s.pc (Lower.loadAddress Lower.t0 e)) :
    ∃ s', Straight names code 1 s s' ∧ s'.reg Register.t0 = a ∧ Still [Register.t0] s s' := by
  rw [addressOf?, he, Option.bind_some] at ha
  rw [Lower.loadAddress] at hcode
  split at ha
  · next hglobal =>
    rw [if_pos hglobal] at hcode
    obtain ⟨addr, haddr, rfl⟩ := Option.map_eq_some_iff.mp ha
    exact straight_set names (Machine.advances_la ofName?_t0 hcode.1 haddr) (by decide)
  · next hlocal =>
    rw [if_neg hlocal] at hcode
    cases ha
    exact straight_set names (Machine.advances_addi ofName?_t0 ofName?_s0 hcode.1) (by decide)

/-! ### Expressions -/

/-- The code of an expression, from any state: it runs straight on, and it leaves the value on the
stack. -/
theorem straight_expression {abi : Abi} : ∀ {e : Expr} {lines : List Line} {s : State},
    Lower.expression abi scopes e = .ok lines → e.callees = [] → CodeAt code s.pc lines →
    4 ∣ (s.reg Register.sp).toInt → e.stackWords ≤ 2 ^ 30 → Apart code scopes s e.stackWords e →
    ∃ s' v, Straight names code (opCount lines) s s' ∧ valueIn? code scopes s e = some v ∧
      Computed e.stackWords v s s'
  | .missing, _, _, h, _, _, _, _, _ => by simp [Lower.expression] at h
  | .constant c, _, s, h, _, hcode, hsp, _, _ => by
    obtain ⟨n, hn, rfl⟩ := Lower.literal_eq_ok h
    obtain ⟨hli, hpush⟩ := hcode
    obtain ⟨s₁, h₁, hreg, hstill⟩ :=
      straight_set names (Machine.advances_li ofName?_t0 hli) (by decide)
    have hsp₁ : s₁.reg Register.sp = s.reg Register.sp := hstill.regs _ (by decide)
    obtain ⟨s₂, h₂, hreplaced⟩ :=
      straight_push names ofName?_t0 (by decide) (hpush.at h₁.pc) (hsp₁ ▸ hsp)
    rw [hsp₁] at hreplaced
    refine ⟨s₂, _, h₁.trans h₂, ?_, (hstill.replaced (by simp) hreplaced).computed
      (Expr.stackWords_pos _)⟩
    rw [hreg, (Lower.toInt_immediate hn).1]
    rfl
  | .variable r, _, s, h, _, hcode, hsp, _, hapart => by
    obtain ⟨e, he, rfl⟩ := Lower.load_eq_ok h
    obtain ⟨a, ha, haligned, -⟩ := hapart r.name (List.mem_singleton_self _)
    simp only [codeAt_append, opCount_append, opCount_loadAddress, Machine.opCount_op,
      Machine.opCount_remark, Machine.opCount_nil] at hcode
    obtain ⟨⟨⟨-, haddress⟩, hlw, -⟩, hpush⟩ := hcode
    obtain ⟨s₁, h₁, hreg, hstill⟩ :=
      straight_loadAddress names (Lower.resolve_eq_ok he).1 ha haddress
    obtain ⟨s₂, h₂, hreg', hstill'⟩ := straight_set names
      (Machine.advances_lw ofName?_t0 ofName?_t0 (hlw.at h₁.pc) (add_offset_zero hreg) haligned)
      (by decide)
    have hboth := hstill.trans hstill'
    have hsp₂ : s₂.reg Register.sp = s.reg Register.sp := hboth.regs _ (by decide)
    obtain ⟨s₃, h₃, hreplaced⟩ :=
      straight_push names ofName?_t0 (by decide) (hpush.at (h₁.trans h₂).pc) (hsp₂ ▸ hsp)
    rw [hsp₂] at hreplaced
    refine ⟨s₃, _, ?_, ?_, (hboth.replaced (by simp) hreplaced).computed (Expr.stackWords_pos _)⟩
    · rw [opCount_append, opCount_append, opCount_append, opCount_loadAddress]
      exact (h₁.trans h₂).trans h₃
    · rw [valueIn?, Expr.value?, ha, hreg', hstill.cells]
      rfl
  | .binary loc op left right, _, s, h, hcalls, hcode, hsp, hwords, hapart => by
    obtain ⟨lc, rc, oc, hl, hr, ho, rfl⟩ := Lower.expression_binary h
    rw [Expr.callees, List.append_eq_nil_iff] at hcalls
    rw [Expr.stackWords] at hwords hapart
    rw [append_combination, codeAt_append, codeAt_append] at hcode
    obtain ⟨hlc, hrc, hoc⟩ := hcode
    have hapartl : Apart code scopes s _ left :=
      fun name hname => hapart name (List.mem_append_left _ hname)
    have hapartr : Apart code scopes s _ right :=
      fun name hname => hapart name (List.mem_append_right _ hname)
    obtain ⟨s₁, a, h₁, ha, hleft⟩ := straight_expression hl hcalls.1 hlc hsp (by omega)
      (hapartl.mono (Nat.le_max_left _ _))
    obtain ⟨hapart₁, hsame⟩ := hleft.apart hapartr
    obtain ⟨s₂, b, h₂, hb, hright⟩ :=
      straight_expression hr hcalls.2 (hrc.at h₁.pc) (hleft.aligned hsp) (by omega) hapart₁
    obtain ⟨s₃, v, h₃, hv, hreplaced⟩ := straight_binary names ho (hoc.at (by rw [h₂.pc, h₁.pc]))
      (hright.aligned (hleft.aligned hsp))
    refine ⟨s₃, v, ?_, ?_, hleft.binary hright hreplaced⟩
    · rw [append_combination, opCount_append, opCount_append, ← Nat.add_assoc]
      exact (h₁.trans h₂).trans h₃
    · rw [hleft.left hright (by omega), hright.top] at hv
      rw [hsame] at hb
      rw [valueIn?] at ha hb ⊢
      rw [Expr.value?, ha, hb]
      exact hv
  | .unary loc op operand, _, s, h, hcalls, hcode, hsp, hwords, hapart => by
    obtain ⟨lc, oc, hl, ho, rfl⟩ := Lower.expression_unary h
    rw [Expr.callees] at hcalls
    rw [Expr.stackWords] at hwords hapart
    rw [List.append_assoc, List.append_assoc, codeAt_append, ← List.append_assoc] at hcode
    obtain ⟨s₁, a, h₁, ha, hcomputed⟩ := straight_expression hl hcalls hcode.1 hsp hwords hapart
    obtain ⟨s₂, v, h₂, hv, hreplaced⟩ :=
      straight_unary names ho (hcode.2.at h₁.pc) (hcomputed.aligned hsp)
    refine ⟨s₂, v, ?_, ?_, hcomputed.unary hreplaced operand.stackWords_pos⟩
    · rw [List.append_assoc, List.append_assoc, opCount_append, ← List.append_assoc]
      exact h₁.trans h₂
    · rw [hcomputed.top] at hv
      rw [valueIn?] at ha ⊢
      rw [Expr.value?, ha]
      exact hv
  | .call .., _, _, _, hcalls, _, _, _, _ => by cases hcalls

/-- **Expressions from any state**: if its variables have words of their own outside the stack that
it needs, the code of an expression without calls runs straight on and leaves the value on the
stack, and nothing else changes but `t0`, `t1` and words of this stack. These words are below the
stack pointer, unless the stack goes on at the end of memory. -/
theorem expression_computed {abi : Abi} {e : Expr} {lines : List Line}
    (h : Lower.expression abi scopes e = .ok lines) (hcalls : e.callees = [])
    (hcode : CodeAt code s.pc lines) (hsp : 4 ∣ (s.reg Register.sp).toInt)
    (hwords : e.stackWords ≤ 2 ^ 30) (hapart : Apart code scopes s e.stackWords e) :
    ∃ s' v, Straight names code (opCount lines) s s' ∧ valueIn? code scopes s e = some v ∧
      Computed e.stackWords v s s' ∧ (4 * e.stackWords ≤ (s.reg Register.sp).toUInt32.toNat →
        ∀ a, (s.reg Register.sp).toUInt32 ≤ a.toUInt32 → s'.cell a = s.cell a) := by
  obtain ⟨s', v, hstraight, hv, hcomputed⟩ :=
    straight_expression names h hcalls hcode hsp hwords hapart
  refine ⟨s', v, hstraight, hv, hcomputed, fun hroom a ha => hcomputed.cells a fun hin => ?_⟩
  exact absurd (hin.lt hroom) (UInt32.not_lt.mpr ha)

/-! ### Assignments -/

/-- A word has been put at an address, and nothing else changes but `t0`, `t1` and words of the
stack. -/
structure Assigned (words : ℕ) (a v : Int32) (s s' : State) : Prop where
  cell : s'.cell a = v
  regs : ∀ r ∉ [Register.t0, Register.t1], s'.reg r = s.reg r
  cells : ∀ b, b ≠ a → ¬ InStack (s.reg Register.sp) words b → s'.cell b = s.cell b
  input : s'.input = s.input
  output : s'.output = s.output

section

-- An address is put on the stack, then a value, and both are taken off again.
variable {t t₁ t₂ t₃ : State} {a : Int32} (h₁ : Computed 1 a s t) (h₂ : Computed n v t t₁)
  (hpop₁ : Popped Register.t1 t₁ t₂) (hpop₀ : Popped Register.t0 t₂ t₃)

include h₁ h₂ hpop₁ hpop₀

theorem Computed.taken (hn : n < 2 ^ 30) : t₃.reg Register.t0 = a ∧ t₃.reg Register.t1 = v := by
  constructor
  · rw [hpop₀.reg, hpop₁.still.cells, hpop₁.sp, h₁.left h₂ hn]
  · rw [hpop₀.still.regs _ (by decide), hpop₁.reg, h₂.top]

theorem Computed.assigned {s' : State} (hpoked : Poked a v t₃ s') : Assigned (n + 1) a v s s' := by
  refine ⟨hpoked.cell, fun r hr => ?_, fun b hb hout => ?_, ?_, ?_⟩
  · rw [hpoked.regs]
    by_cases hsp : r = Register.sp
    · rw [hsp, hpop₀.sp, hpop₁.sp, h₂.sp_add_four, h₁.sp_add_four]
    · simp only [List.mem_cons, List.not_mem_nil, or_false, not_or] at hr
      rw [hpop₀.still.regs r (by simp [hr, hsp]), hpop₁.still.regs r (by simp [hr, hsp]),
        h₂.regs r (by simp [hr, hsp]), h₁.regs r (by simp [hr, hsp])]
  · have hfirst : ¬ InStack (s.reg Register.sp) 1 b := fun hin => hout (hin.mono (by omega))
    have hrest : ¬ InStack (t.reg Register.sp) n b := fun hin => hout (InStack.succ (h₁.sp ▸ hin))
    rw [hpoked.cells b hb, hpop₀.still.cells, hpop₁.still.cells, h₂.cells b hrest,
      h₁.cells b hfirst]
  · rw [hpoked.input, hpop₀.still.input, hpop₁.still.input, h₂.input, h₁.input]
  · rw [hpoked.output, hpop₀.still.output, hpop₁.still.output, h₂.output, h₁.output]

end

/-- The code of an assignment, from any state: it runs straight on, and the variable has the value
of the expression. One word more is needed than for the expression, for the address. -/
theorem straight_assign {ctx : Lower.Context} {loc : Location} {target : Reference} {e : Expr}
    {lines : List Line} {p q : Lower.Progress} {a : Int32}
    (h : Made (Lower.statement ctx scopes (.assign loc target e)) p lines q)
    (hcalls : e.callees = []) (hcode : CodeAt code s.pc lines) (hsp : 4 ∣ (s.reg Register.sp).toInt)
    (hwords : e.stackWords < 2 ^ 30) (ha : addressOf? code scopes s target.name = some a)
    (haligned : 4 ∣ a.toInt) (hapart : Apart code scopes s (e.stackWords + 1) e) :
    ∃ s' v, Straight names code (opCount lines) s s' ∧ valueIn? code scopes s e = some v ∧
      Assigned (e.stackWords + 1) a v s s' := by
  obtain ⟨entry, c, hentry, hc, -, rfl⟩ := Lower.made_assign h
  simp only [codeAt_append, opCount_append, opCount_loadAddress, Machine.opCount_op,
    Machine.opCount_remark, Machine.opCount_nil, Machine.opCount_push,
    Machine.opCount_pop] at hcode ⊢
  obtain ⟨⟨⟨⟨⟨⟨-, haddress⟩, hpush⟩, hexpr⟩, hpop₁⟩, hpop₀⟩, hsw, -⟩ := hcode
  -- the address
  obtain ⟨s₁, h₁, hreg, hstill⟩ :=
    straight_loadAddress names (Lower.resolve_eq_ok hentry).1 ha haddress
  have hsp₁ : s₁.reg Register.sp = s.reg Register.sp := hstill.regs _ (by decide)
  obtain ⟨s₂, h₂, hreplaced⟩ :=
    straight_push names ofName?_t0 (by decide) (hpush.at h₁.pc) (hsp₁ ▸ hsp)
  rw [hsp₁, hreg] at hreplaced
  have hfirst : Computed 1 a s s₂ := (hstill.replaced (by simp) hreplaced).computed Nat.one_pos
  have hsp₂ := hfirst.aligned hsp
  -- the value
  have hpos := e.stackWords_pos
  obtain ⟨hapart₂, hsame⟩ := hfirst.apart (n := e.stackWords) (hapart.mono (by omega))
  obtain ⟨s₃, v, h₃, hv, hsecond⟩ :=
    straight_expression names hc hcalls (hexpr.at (h₁.trans h₂).pc) hsp₂ hwords.le hapart₂
  have hsp₃ := hsecond.aligned hsp₂
  -- both are taken off the stack
  obtain ⟨s₄, h₄, hpopped₁⟩ := straight_pop names ofName?_t1 (by decide) (by decide)
    (hpop₁.at ((h₁.trans h₂).trans h₃).pc) hsp₃
  obtain ⟨s₅, h₅, hpopped₀⟩ := straight_pop names ofName?_t0 (by decide) (by decide)
    (hpop₀.at (((h₁.trans h₂).trans h₃).trans h₄).pc) (by rw [hpopped₁.sp]; exact dvd_add_four hsp₃)
  have hstraight := (((h₁.trans h₂).trans h₃).trans h₄).trans h₅
  obtain ⟨ht0, ht1⟩ := hfirst.taken hsecond hpopped₁ hpopped₀ hwords
  obtain ⟨s₆, h₆, hpoked⟩ := straight_poke names
    (Machine.advances_sw ofName?_t1 ofName?_t0 (hsw.at hstraight.pc) (add_offset_zero ht0)
      haligned)
  rw [ht1] at hpoked
  refine ⟨s₆, v, ?_, hsame ▸ hv, hfirst.assigned hsecond hpopped₁ hpopped₀ hpoked⟩
  simpa only [Nat.zero_add] using hstraight.trans h₆

/-! ### Slots and stacks -/

theorem not_advances_of_badLoad {r r' : String} {ρ ρ' : Register} (hr : Register.ofName? r = some ρ)
    (hr' : Register.ofName? r' = some ρ') {a : Int32}
    (h : Machine.Fetched code s.pc "lw" [.reg r, .mem 0 r']) (ha : s.reg ρ' = a)
    (hodd : a.toUInt32 % 4 ≠ 0) : ¬ Machine.Advances names code s s₁ := by
  have hstep : Machine.step names code s (.load ρ (Int32.ofInt (0 : Int64).toInt) ρ') =
      (s, .trapped (.badLoad a.toUInt32)) := by
    have haddr : s.address (Int32.ofInt (0 : Int64).toInt) ρ' = a.toUInt32 := by
      rw [State.address, add_offset_zero ha]
    rw [Machine.step, haddr, State.load, if_neg hodd]
    rfl
  exact (h.traps (Machine.translate_two (Machine.translate_reg hr) (Machine.translate_mem hr')) rfl
    hstep).not_advances

/-- A variable whose address is no multiple of four stops the machine. -/
theorem not_straight_of_odd {abi : Abi} {r : Reference} {lines : List Line} {a : Int32}
    (h : Lower.expression abi scopes (.variable r) = .ok lines) (hcode : CodeAt code s.pc lines)
    (ha : addressOf? code scopes s r.name = some a) (hodd : a.toUInt32 % 4 ≠ 0) :
    ¬ Straight names code (opCount lines) s s₁ := by
  obtain ⟨e, he, rfl⟩ := Lower.load_eq_ok h
  simp only [codeAt_append, opCount_append, opCount_loadAddress, Machine.opCount_op,
    Machine.opCount_remark, Machine.opCount_nil] at hcode
  obtain ⟨⟨⟨-, haddress⟩, hlw, -⟩, -⟩ := hcode
  obtain ⟨t, ⟨_, hadvances, -, rfl⟩, hreg, -⟩ :=
    straight_loadAddress names (Lower.resolve_eq_ok he).1 ha haddress
  rw [opCount_append, opCount_append, opCount_append, opCount_loadAddress]
  rintro ⟨t', hadvances', hpc, _, hload, -⟩
  rw [hadvances'.unique hadvances] at hload hpc
  exact not_advances_of_badLoad names ofName?_t0 ofName?_t0 (hlw.at hpc) hreg hodd hload

/-- A scope with a local variable that has a slot, and one around it with a global variable. -/
def slotted (slot : Int64) : Scopes :=
  [⟨[{ name := "x", kind := .variable, type := .integer, level := 1, slot }]⟩,
    ⟨[{ name := "y", kind := .variable, type := .integer, level := 0 }]⟩]

/-- Lines as a listing with a global variable. -/
def sited (lines : List Line) : Listing := { listed lines with dataLabels := [("y", 0x00100000)] }

/-- A state with a frame of sixteen bytes. -/
def begun : State := (({} : State).start 0).setReg Register.sp (Machine.stackTop - 16)

/-- A comparison of the local variable with three times the global one. -/
def nestedComparison : Expr :=
  .binary {} .less (.variable ⟨{}, "x"⟩)
    (.binary {} .times (.variable ⟨{}, "y"⟩) (.constant ⟨{}, .integer, 3⟩))

/-- The lines of an expression can stand on their own. -/
theorem exists_codeAt (scopes : Scopes) (e : Expr)
    (h : (Lower.expression {} scopes e).toOption.any (fun lines => decide (Asm.labelsOf lines = [] ∧
      ∀ p ∈ Asm.opsOf lines, (p.2.mapM Asm.Operand.translate?).isSome)) = true) :
    ∃ lines, Lower.expression {} scopes e = .ok lines ∧
      ∀ code : Listing, code.instructions = (listed lines).instructions → CodeAt code 0 lines := by
  obtain ⟨lines, hlines, htest⟩ := exists_ok_of_any h
  obtain ⟨hlabels, hops⟩ := of_decide_eq_true htest
  exact ⟨lines, hlines, fun code hcode => codeAt_listed hlabels hops hcode⟩

theorem nestedComparison_computed :
    ∃ lines, Lower.expression {} (slotted (-12)) nestedComparison = .ok lines ∧
    ∃ s' v, Straight {} (sited lines) (opCount lines) begun s' ∧
      valueIn? (sited lines) (slotted (-12)) begun nestedComparison = some v ∧
      Computed 3 v begun s' ∧
      (4 * 3 ≤ (begun.reg Register.sp).toUInt32.toNat →
        ∀ a, (begun.reg Register.sp).toUInt32 ≤ a.toUInt32 → s'.cell a = begun.cell a) := by
  obtain ⟨lines, hlines, hcode⟩ :=
    exists_codeAt (slotted (-12)) nestedComparison (by decide +kernel)
  have hapart : Apart (sited lines) (slotted (-12)) begun 3 nestedComparison := by
    intro name hname
    simp only [nestedComparison, Expr.variables, List.mem_append, List.mem_cons, List.not_mem_nil,
      or_false] at hname
    obtain rfl | rfl := hname
    · exact ⟨Machine.stackTop - 12, rfl, by decide, by decide⟩
    · exact ⟨0x00100000, rfl, by decide, by decide⟩
  exact ⟨lines, hlines, expression_computed {} hlines rfl (hcode _ rfl) (by decide) (by decide)
    hapart⟩

/-- A slot that is no multiple of four cannot be read, and a stack at the first address goes on at
the last one. -/
theorem odd_slot_and_wrapped_stack :
    (∃ lines, Lower.expression {} (slotted (-14)) (.variable ⟨{}, "x"⟩) = .ok lines ∧
      CodeAt (sited lines) begun.pc lines ∧ 4 ∣ (begun.reg Register.s0).toInt ∧
      4 ∣ (begun.reg Register.sp).toInt ∧
      addressOf? (sited lines) (slotted (-14)) begun "x" = some (Machine.stackTop - 14) ∧
      ¬ InStack (begun.reg Register.sp) 1 (Machine.stackTop - 14) ∧
      ∀ s', ¬ Straight {} (sited lines) (opCount lines) begun s') ∧
    ∃ lines, Lower.expression {} [] (.constant ⟨{}, .integer, 5⟩) = .ok lines ∧
      CodeAt (listed lines) ({} : State).pc lines ∧ 4 ∣ (({} : State).reg Register.sp).toInt ∧
      (({} : State).reg Register.sp).toUInt32 ≤ (-4 : Int32).toUInt32 ∧
      ∃ s', Straight {} (listed lines) (opCount lines) {} s' ∧
      s'.cell (-4) ≠ ({} : State).cell (-4) := by
  constructor
  · obtain ⟨lines, hlines, hcode⟩ :=
      exists_codeAt (slotted (-14)) (.variable ⟨{}, "x"⟩) (by decide +kernel)
    refine ⟨lines, hlines, hcode _ rfl, by decide, by decide, rfl, by decide, ?_⟩
    exact fun s' => not_straight_of_odd {} hlines (hcode _ rfl) (a := Machine.stackTop - 14) rfl
      (by decide)
  · obtain ⟨lines, hlines, hcode⟩ :=
      exists_codeAt [] (.constant ⟨{}, .integer, 5⟩) (by decide +kernel)
    have hsp : 4 ∣ (({} : State).reg Register.sp).toInt := by decide
    refine ⟨lines, hlines, hcode _ rfl, hsp, by decide, ?_⟩
    obtain ⟨s', v, hstraight, hv, hcomputed⟩ :=
      straight_expression {} hlines rfl (hcode (listed lines) rfl) hsp (by decide)
        (fun name hname => absurd hname List.not_mem_nil)
    have htop := hcomputed.top
    rw [hcomputed.sp] at htop
    refine ⟨s', hstraight, ?_⟩
    have haddr : ({} : State).reg Register.sp - 4 = -4 := by decide
    have hfive : (5 : Int32) = v := Option.some.inj hv
    rw [haddr] at htop
    have hzero : ({} : State).cell (-4) = 0 := by simp [State.cell, State.word]
    rw [htop, hzero, ← hfive]
    decide

end Simulation

end RvBackend
