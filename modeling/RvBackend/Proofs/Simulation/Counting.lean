import RvBackend.Proofs.Asm.Placement
import RvBackend.Proofs.Lower.Loops
import RvBackend.Proofs.Lower.ReadBack
import RvBackend.Proofs.Machine.Reflected
import RvBackend.Proofs.Simulation.StackArea

/-! # `for` loops run exactly their range

The code of a `for` loop keeps its counter in memory and leaves the loop when the counter is equal
to the upper bound. Nothing is known of the code of the body but that it comes to its end with the
stack pointer, the frame pointer and the counter as they were. Then the body is executed once for
each value of the range, in order.

* `Located`: where a loop stands in a listing.
* `Executes`: one execution of the body, `Rounds`: executions in a row, with the value of the
  counter at each start.
* `bodyReturns_of_assign`: a body that does come to its end.
* `rounds_of_test`: from the test on, by induction on the rounds that are left.
* `loops_run_their_range`: the loops of a program whose text is accepted. -/

namespace RvBackend.Simulation

open Asm (Register Line IsSymbol Placed Legible)
open Lower (Loop loadAddress)
open Machine
  (State Listing Names Advances Steps CodeAt Fetched opCount codeAt_append opCount_append)

/-! ### Where a loop stands -/

/-- A loop has its place: the lines before the body, the body, and the lines behind it. -/
structure Located (code : Listing) (l : Loop) (start body back stop : ℕ) : Prop where
  head : Placed code start l.head body
  body : Placed code body l.body back
  tail : Placed code back l.tail stop

theorem located_of_lines {p : Asm.Program} {text : String} {code : Listing} {g : Asm.Function}
    {l : Loop} (htext : p.text? = some text) (hparse : Listing.parse text = .ok code)
    (hg : g ∈ p.functions) (hl : l.code <:+: g.lines) :
    ∃ start body back stop, Located code l start body back stop := by
  obtain ⟨front, behind, hlines⟩ := hl
  obtain ⟨i, j, hplaced⟩ := Asm.placed_function htext hparse hg
  rw [← hlines] at hplaced
  obtain ⟨stop, hfront, -⟩ := hplaced.append
  obtain ⟨start, -, hloop⟩ := hfront.append
  obtain ⟨body, hhead, hrest⟩ := hloop.append
  obtain ⟨back, hbody, htail⟩ := hrest.append
  exact ⟨start, body, back, stop, hhead, hbody, htail⟩

/-- The lines of a loop that are not its body's, where they are found: the variable is set, tested
and counted up. -/
structure Standing (code : Listing) (l : Loop) (start back : ℕ) : Prop where
  setAddress : CodeAt code start (loadAddress Lower.t0 l.entry)
  set : CodeAt code (start + 1)
    [.op "li" [Lower.t1, .imm l.lo], .op "sw" [Lower.t1, .mem 0 "t0"], .label l.again]
  testAddress : CodeAt code (start + 3) (loadAddress Lower.t0 l.entry)
  test : CodeAt code (start + 4)
    [.op "lw" [Lower.t0, .mem 0 "t0"], .op "li" [Lower.t1, .imm l.hi],
      .op "beq" [Lower.t0, Lower.t1, .label l.done]]
  countAddress : CodeAt code back (loadAddress Lower.t0 l.entry)
  count : CodeAt code (back + 1)
    [.op "lw" [Lower.t1, .mem 0 "t0"], .op "addi" [Lower.t1, Lower.t1, .imm 1],
      .op "sw" [Lower.t1, .mem 0 "t0"], .op "j" [.label l.again], .label l.done]

section

theorem legible_reg {r : String} {ρ : Register} (h : Register.ofName? r = some ρ) :
    (Asm.Operand.reg r).Legible :=
  .inr (Option.isSome_iff_exists.mpr ⟨ρ, h⟩)

theorem legible_imm (n : Int64) : (Asm.Operand.imm n).Legible := .inl ⟨n, rfl⟩

theorem legible_mem {r : String} {ρ : Register} (h : Register.ofName? r = some ρ) :
    (Asm.Operand.mem 0 r).Legible :=
  .inr ⟨Option.isSome_iff_exists.mpr ⟨ρ, h⟩, by decide, by decide⟩

theorem legible_fresh (n : ℕ) : (Asm.Operand.label (Lower.freshLabel n)).Legible :=
  .inr (Lower.isSymbol_fresh n)

theorem legible_op {m : String} {os : List Asm.Operand} (hm : m ∈ Lower.mnemonics)
    (ho : ∀ o ∈ os, o.Legible) :
    Legible (.op m os) := by
  obtain ⟨hne, hplain, hdot⟩ := Lower.isWord_mnemonics m hm
  exact .op ⟨hne, hplain⟩ hdot ho

/-- An address is loaded by one instruction, and it is read back if the label of the entry is. -/
theorem exists_loadAddress {e : Entry} (he : e.isGlobal = true → IsSymbol e.name) :
    ∃ m os, loadAddress Lower.t0 e = [.op m os] ∧ Legible (.op m os) := by
  rw [loadAddress]
  split
  · next hglobal =>
    refine ⟨_, _, rfl, legible_op (by decide) ?_⟩
    simp only [List.forall_mem_cons, List.not_mem_nil, false_implies, implies_true, and_true]
    exact ⟨legible_reg ofName?_t0, .inr (he hglobal)⟩
  · refine ⟨_, _, rfl, legible_op (by decide) ?_⟩
    simp only [List.forall_mem_cons, List.not_mem_nil, false_implies, implies_true, and_true]
    exact ⟨legible_reg ofName?_t0, legible_reg ofName?_s0, legible_imm _⟩

theorem legible_head {l : Loop} (h : ∀ line ∈ loadAddress Lower.t0 l.entry, Legible line) :
    ∀ line ∈ l.head, Legible line := by
  refine List.forall_mem_append.mpr
    ⟨List.forall_mem_append.mpr ⟨h, ?_⟩, List.forall_mem_append.mpr ⟨h, ?_⟩⟩
  · simp only [List.forall_mem_cons, List.not_mem_nil, false_implies, implies_true, and_true]
    refine ⟨legible_op (by decide) ?_, legible_op (by decide) ?_, .label (Lower.isSymbol_fresh _)⟩
    · simp [legible_reg ofName?_t1, legible_imm, Lower.t1]
    · simp [legible_reg ofName?_t1, legible_mem ofName?_t0, Lower.t1]
  · simp only [List.forall_mem_cons, List.not_mem_nil, false_implies, implies_true, and_true]
    refine ⟨legible_op (by decide) ?_, legible_op (by decide) ?_, legible_op (by decide) ?_⟩
    · simp [legible_reg ofName?_t0, legible_mem ofName?_t0, Lower.t0]
    · simp [legible_reg ofName?_t1, legible_imm, Lower.t1]
    · simp [legible_reg ofName?_t0, legible_reg ofName?_t1, legible_fresh, Loop.done, Lower.t0,
        Lower.t1]

theorem legible_tail {l : Loop} (h : ∀ line ∈ loadAddress Lower.t0 l.entry, Legible line) :
    ∀ line ∈ l.tail, Legible line := by
  refine List.forall_mem_append.mpr ⟨h, ?_⟩
  simp only [List.forall_mem_cons, List.not_mem_nil, false_implies, implies_true, and_true]
  refine ⟨legible_op (by decide) ?_, legible_op (by decide) ?_, legible_op (by decide) ?_,
    legible_op (by decide) ?_, .label (Lower.isSymbol_fresh _)⟩
  · simp [legible_reg ofName?_t1, legible_mem ofName?_t0, Lower.t1]
  · simp [legible_reg ofName?_t1, legible_imm, Lower.t1]
  · simp [legible_reg ofName?_t1, legible_mem ofName?_t0, Lower.t1]
  · simp [legible_fresh, Loop.again]

end

/-- The lines of a loop that are not its body's are found at their places. -/
theorem Located.standing {code : Listing} {l : Loop} {start body back stop : ℕ}
    (h : Located code l start body back stop)
    (hname : l.entry.isGlobal = true → IsSymbol l.entry.name) :
    Standing code l start back ∧ body = start + 7 ∧ stop = back + 5 := by
  obtain ⟨m, os, hload, hlegible⟩ := exists_loadAddress hname
  have hlines : ∀ line ∈ loadAddress Lower.t0 l.entry, Legible line := by
    rw [hload]
    exact List.forall_mem_singleton.mpr hlegible
  have hheadLines := legible_head hlines
  have htailLines := legible_tail hlines
  have hhead : CodeAt code start l.head ∧ body = start + opCount l.head := by
    have hplaced := h.head
    rw [Loop.head, hload] at hplaced hheadLines ⊢
    exact hplaced.codeAt hheadLines
  have htail : CodeAt code back l.tail ∧ stop = back + opCount l.tail := by
    have hplaced := h.tail
    rw [Loop.tail, hload] at hplaced htailLines ⊢
    exact hplaced.codeAt htailLines
  simp only [Loop.head, Loop.tail, codeAt_append, opCount_append, opCount_loadAddress,
    Machine.opCount_op, Machine.opCount_label, Machine.opCount_nil] at hhead htail
  obtain ⟨⟨⟨hsetAddress, hset⟩, htestAddress, htest⟩, hbody⟩ := hhead
  obtain ⟨⟨hcountAddress, hcount⟩, hstop⟩ := htail
  exact ⟨⟨hsetAddress, hset, htestAddress, htest, hcountAddress, hcount⟩, hbody, hstop⟩

/-- If the lines of a loop stand in a listing, then they stand at its place: each of its labels
leads to one instruction. -/
theorem Located.codeAt_body {code : Listing} {l : Loop} {start body back stop i : ℕ}
    (h : Located code l start body back stop)
    (hname : l.entry.isGlobal = true → IsSymbol l.entry.name) (hcode : CodeAt code i l.code) :
    CodeAt code body l.body ∧ back = body + opCount l.body := by
  obtain ⟨hstanding, rfl, -⟩ := h.standing hname
  obtain ⟨-, -, hagain, -⟩ := hstanding.set
  obtain ⟨-, -, -, -, hdone, -⟩ := hstanding.count
  simp only [Loop.code, Loop.head, Loop.tail, codeAt_append, opCount_append, opCount_loadAddress,
    Machine.opCount_op, Machine.opCount_label, Machine.opCount_nil] at hcode
  obtain ⟨⟨⟨-, -, -, hagain', -⟩, -⟩, hbody, -, -, -, -, -, hdone', -⟩ := hcode
  have hstart := Option.some.inj (hagain.symm.trans hagain')
  have hback := Option.some.inj (hdone.symm.trans hdone')
  obtain rfl : start = i := by omega
  exact ⟨hbody, by omega⟩

/-! ### The steps of a loop -/

/-- The stack pointer and the frame pointer are the same. -/
structure SameFrame (s s' : State) : Prop where
  sp : s'.reg Register.sp = s.reg Register.sp
  s0 : s'.reg Register.s0 = s.reg Register.s0

theorem SameFrame.trans {s s' s'' : State} (h : SameFrame s s') (h' : SameFrame s' s'') :
    SameFrame s s'' :=
  ⟨h'.sp.trans h.sp, h'.s0.trans h.s0⟩

theorem Still.sameFrame {rs : List Register} {s s' : State} (h : Still rs s s')
    (hrs : rs ⊆ [Register.t0, Register.t1]) : SameFrame s s' :=
  ⟨h.regs _ fun hmem => absurd (hrs hmem) (by decide),
    h.regs _ fun hmem => absurd (hrs hmem) (by decide)⟩

theorem addressOf?_of_sameFrame {code : Listing} {scopes : Scopes} {s s' : State} {name : String}
    (h : SameFrame s s') : addressOf? code scopes s' name = addressOf? code scopes s name := by
  rw [addressOf?, addressOf?, h.s0]

section

variable (names : Names) {code : Listing} {l : Loop} {start back : ℕ} {a : Int32} {s : State}
  (h : Standing code l start back) (hfind : l.scopes.find? l.var = some l.entry)
  (ha : addressOf? code l.scopes s l.var = some a) (haligned : 4 ∣ a.toInt)

include hfind ha

include h in
/-- The address of the variable and the lower bound are loaded. -/
theorem Standing.prepares (hpc : s.pc = start) :
    ∃ t, Straight names code 2 s t ∧ t.pc = start + 2 ∧ t.reg Register.t0 = a ∧
      t.reg Register.t1 = Int32.ofInt l.lo.toInt ∧ Still [Register.t0, Register.t1] s t := by
  obtain ⟨hli, -⟩ := h.set
  obtain ⟨s₁, h₁, hreg₁, hstill₁⟩ := straight_loadAddress names hfind ha (h.setAddress.at hpc)
  have hpc₁ : s₁.pc = start + 1 := by rw [h₁.pc, hpc]
  obtain ⟨t, h₂, hreg₂, hstill₂⟩ :=
    straight_set names (Machine.advances_li ofName?_t1 (hli.at hpc₁)) (by decide)
  refine ⟨t, h₁.trans h₂, by rw [h₂.pc, hpc₁], ?_, hreg₂, hstill₁.trans hstill₂⟩
  rw [hstill₂.regs Register.t0 (by decide), hreg₁]

include haligned

/-- The word of the variable is loaded into a register, behind its address. -/
theorem straight_loadWord {i : ℕ} {r : String} {ρ : Register} (hr : Register.ofName? r = some ρ)
    (hzero : ρ.val ≠ 0) (hpc : s.pc = i) (haddress : CodeAt code i (loadAddress Lower.t0 l.entry))
    (hlw : Fetched code (i + 1) "lw" [.reg r, .mem 0 "t0"]) :
    ∃ t, Straight names code 2 s t ∧ t.pc = i + 2 ∧ t.reg ρ = s.cell a ∧
      (ρ ≠ Register.t0 → t.reg Register.t0 = a) ∧
      Still [Register.t0, ρ] s t := by
  obtain ⟨s₁, h₁, hreg₁, hstill₁⟩ := straight_loadAddress names hfind ha (haddress.at hpc)
  have hpc₁ : s₁.pc = i + 1 := by rw [h₁.pc, hpc]
  obtain ⟨t, h₂, hreg₂, hstill₂⟩ := straight_set names
    (Machine.advances_lw hr ofName?_t0 (hlw.at hpc₁) (add_offset_zero hreg₁) haligned) hzero
  refine ⟨t, h₁.trans h₂, by rw [h₂.pc, hpc₁], by rw [hreg₂, hstill₁.cells], fun hne => ?_,
    hstill₁.trans hstill₂⟩
  rw [hstill₂.regs _ (by simpa using hne.symm), hreg₁]

include h

/-- The variable is set to the lower bound. -/
theorem Standing.sets (hpc : s.pc = start) :
    ∃ t, Straight names code 3 s t ∧ t.cell a = Int32.ofInt l.lo.toInt ∧ SameFrame s t := by
  obtain ⟨-, hsw, -⟩ := h.set
  obtain ⟨s₁, h₁, hpc₁, hreg₀, hreg₁, hstill⟩ := h.prepares names hfind ha hpc
  obtain ⟨t, h₂, hpoked⟩ := straight_poke names
    (Machine.advances_sw ofName?_t1 ofName?_t0 (hsw.at hpc₁) (add_offset_zero hreg₀) haligned)
  have hframe : SameFrame s s₁ := hstill.sameFrame (List.Subset.refl _)
  exact ⟨t, h₁.trans h₂, by rw [hpoked.cell, hreg₁], hframe.trans ⟨hpoked.regs _, hpoked.regs _⟩⟩

/-- The loop is left if the variable has the upper bound; otherwise the body comes next. -/
theorem Standing.tests (hpc : s.pc = start + 3) :
    ∃ t, Steps names code 4 s t ∧
      t.pc = (if s.cell a = Int32.ofInt l.hi.toInt then back + 5 else start + 7) ∧
      t.cell a = s.cell a ∧ SameFrame s t := by
  obtain ⟨hlw, hli, hbeq, -⟩ := h.test
  obtain ⟨-, -, -, -, hdone, -⟩ := h.count
  obtain ⟨s₁, h₁, hpc₁, hreg₁, -, hstill₁⟩ :=
    straight_loadWord names hfind ha haligned ofName?_t0 (by decide) hpc h.testAddress hlw
  obtain ⟨s₂, h₂, hreg₂, hstill₂⟩ :=
    straight_set names (Machine.advances_li ofName?_t1 (hli.at hpc₁)) (by decide)
  have hpc₂ : s₂.pc = start + 6 := by rw [h₂.pc, hpc₁]
  have hstill : Still [Register.t0, Register.t0, Register.t1] s s₂ := hstill₁.trans hstill₂
  have hframe : SameFrame s s₂ := hstill.sameFrame (by simp)
  have hbranch : Advances names code s₂ _ :=
    Machine.advances_beq ofName?_t0 ofName?_t1 (hbeq.at hpc₂) hdone
  rw [hreg₂, hstill₂.regs Register.t0 (by decide), hreg₁] at hbranch
  refine ⟨_, (h₁.trans h₂).steps.trans hbranch.steps, ?_⟩
  split
  · exact ⟨rfl, hstill.cells a, hframe.sp, hframe.s0⟩
  · exact ⟨by rw [State.pc_next, hpc₂], hstill.cells a, hframe.sp, hframe.s0⟩

/-- The variable is counted up, and its test comes next. -/
theorem Standing.counts (hpc : s.pc = back) :
    ∃ t, Steps names code 5 s t ∧ t.pc = start + 3 ∧ t.cell a = s.cell a + 1 ∧ SameFrame s t := by
  obtain ⟨hlw, haddi, hsw, hj, -⟩ := h.count
  obtain ⟨-, -, hagain, -⟩ := h.set
  obtain ⟨s₁, h₁, hpc₁, hreg₁, ht0, hstill₁⟩ :=
    straight_loadWord names hfind ha haligned ofName?_t1 (by decide) hpc h.countAddress hlw
  obtain ⟨s₂, h₂, hreg₂, hstill₂⟩ := straight_set names
    (Machine.advances_addi ofName?_t1 ofName?_t1 (haddi.at hpc₁)) (by decide)
  have hpc₂ : s₂.pc = back + 3 := by rw [h₂.pc, hpc₁]
  have hreg₀ : s₂.reg Register.t0 = a := by
    rw [hstill₂.regs Register.t0 (by decide), ht0 (by decide)]
  obtain ⟨s₃, h₃, hpoked⟩ := straight_poke names
    (Machine.advances_sw ofName?_t1 ofName?_t0 (hsw.at hpc₂) (add_offset_zero hreg₀) haligned)
  have hpc₃ : s₃.pc = back + 4 := by rw [h₃.pc, hpc₂]
  have hframe : SameFrame s s₂ := (hstill₁.trans hstill₂).sameFrame (by simp)
  have hjump : Advances names code s₃ { s₃ with pc := start + 3 } :=
    Machine.advances_j (hj.at hpc₃) hagain
  refine ⟨_, ((h₁.trans h₂).trans h₃).steps.trans hjump.steps, rfl, ?_,
    hframe.trans ⟨hpoked.regs _, hpoked.regs _⟩⟩
  show s₃.cell a = s.cell a + 1
  rw [hpoked.cell, hreg₂, hreg₁]
  rfl

end

/-! ### Executions of the body -/

/-- The body has come to its end: the stack pointer, the frame pointer and the word of the variable
are as they were when it was begun. -/
structure BodyReturned (back : ℕ) (a : Int32) (b b' : State) : Prop where
  pc : b'.pc = back
  frame : SameFrame b b'
  cell : b'.cell a = b.cell a

/-- One execution of the body, from its first instruction to its end. -/
def Executes (names : Names) (code : Listing) (back : ℕ) (a : Int32) (b b' : State) : Prop :=
  ∃ n, Steps names code n b b' ∧ BodyReturned back a b b' ∧
    ∀ m < n, ∀ t, Steps names code m b t → ¬ BodyReturned back a b t

/-- The body comes to its end whenever the loop begun in `s` executes it. -/
def BodyReturns (names : Names) (code : Listing) (l : Loop) (body back : ℕ) (a : Int32)
    (s : State) : Prop :=
  ∀ (n : ℕ) (b : State), Steps names code n s b → b.pc = body → SameFrame s b →
    l.lo.toInt ≤ (b.cell a).toInt → (b.cell a).toInt < l.hi.toInt → ∃ m b',
    Steps names code m b b' ∧ BodyReturned back a b b'

/-- The loop goes on from `s` to `s'` and executes its body once for each of the values, which are
those that the word at `a` has at the start of each execution. It takes `n` steps of its own to the
first execution, and nine from one to the next and from the last one on. -/
inductive Rounds (names : Names) (code : Listing) (body back : ℕ) (a : Int32) :
    ℕ → State → List ℤ → State → Prop
  | done {n : ℕ} {s s' : State} (own : Steps names code n s s') : Rounds names code body back a n s
      [] s'
  | next {n : ℕ} {s b b' s' : State} {vs : List ℤ} (own : Steps names code n s b) (pc : b.pc = body)
      (execution : Executes names code back a b b')
      (rest : Rounds names code body back a 9 b' vs s') :
      Rounds names code body back a n s ((b.cell a).toInt :: vs) s'

theorem executes_of_returned {names : Names} {code : Listing} {back : ℕ} {a : Int32} {b : State}
    (h : ∃ n b', Steps names code n b b' ∧ BodyReturned back a b b') :
    ∃ b' n, Executes names code back a b b' ∧ Steps names code n b b' ∧
      BodyReturned back a b b' := by
  classical
  obtain ⟨b', hsteps, hreturned⟩ := Nat.find_spec h
  exact ⟨b', Nat.find h,
    ⟨_, hsteps, hreturned, fun m hm t ht ht' => Nat.find_min h hm ⟨t, ht, ht'⟩⟩, hsteps, hreturned⟩

section

variable {names : Names} {code : Listing} {l : Loop} {start body back stop : ℕ}
  (h : Located code l start body back stop)

include h

/-- A missing body comes to its end at once. -/
theorem bodyReturns_of_nil (hl : l.body = []) (a : Int32) (s : State) :
    BodyReturns names code l body back a s := by
  intro n b _ hpc _ _ _
  have hbody := h.body
  rw [hl] at hbody
  obtain rfl := hbody.of_nil
  exact ⟨0, b, rfl, hpc, ⟨rfl, rfl⟩, rfl⟩

/-- A body that assigns the value of an expression to another variable comes to its end, if all the
words are outside the stack that it needs. -/
theorem bodyReturns_of_assign {i : ℕ} {ctx : Lower.Context} {loc : Location} {target : Reference}
    {e : Expr} {p q : Lower.Progress} {s : State} {a b : Int32}
    (hname : l.entry.isGlobal = true → IsSymbol l.entry.name) (hcode : CodeAt code i l.code)
    (hmade : Made (Lower.statement ctx l.scopes (.assign loc target e)) p l.body q)
    (hcalls : e.callees = []) (hsp : 4 ∣ (s.reg Register.sp).toInt) (hwords : e.stackWords < 2 ^ 30)
    (hb : addressOf? code l.scopes s target.name = some b) (haligned : 4 ∣ b.toInt) (hne : a ≠ b)
    (hout : ¬ InStack (s.reg Register.sp) (e.stackWords + 1) a)
    (hapart : Apart code l.scopes s (e.stackWords + 1) e) :
    BodyReturns names code l body back a s := by
  obtain ⟨hbody, rfl⟩ := h.codeAt_body hname hcode
  intro n t _ hpc hframe _ _
  have haddress : addressOf? code l.scopes t = addressOf? code l.scopes s :=
    funext fun _ => addressOf?_of_sameFrame hframe
  rw [← hframe.sp] at hsp hout
  have hapart' : Apart code l.scopes t (e.stackWords + 1) e := by
    rw [Apart, haddress, hframe.sp]
    exact hapart
  obtain ⟨t', v, hstraight, -, hassigned⟩ := straight_assign names hmade hcalls (hbody.at hpc) hsp
    hwords (haddress ▸ hb) haligned hapart'
  exact ⟨_, t', hstraight.steps, by rw [hstraight.pc, hpc],
    ⟨hassigned.regs _ (by decide), hassigned.regs _ (by decide)⟩, hassigned.cells a hne hout⟩

end

theorem range_of_lt {m n : ℤ} (h : m < n) : Int.range m n = m :: Int.range (m + 1) n := by
  have hsucc : (n - m).toNat = (n - (m + 1)).toNat + 1 := by omega
  rw [Int.range, Int.range, hsucc, List.range_succ_eq_map, List.map_cons, List.map_map]
  refine congrArg₂ _ (by simp) (List.map_congr_left fun k _ => ?_)
  simp only [Function.comp_apply, Nat.succ_eq_add_one]
  push_cast
  ring

theorem range_of_ge {m n : ℤ} (h : n ≤ m) : Int.range m n = [] := by
  have hzero : (n - m).toNat = 0 := by omega
  rw [Int.range, hzero]
  rfl

/-! ### All rounds -/

/-- The loop begun in `s` has come to its test, with a value of its variable. -/
structure AtTest (names : Names) (code : Listing) (test : ℕ) (a : Int32) (s t : State) (k : ℤ) :
    Prop where
  pc : t.pc = test
  cell : (t.cell a).toInt = k
  frame : SameFrame s t
  reached : ∃ n, Steps names code n s t

section

variable {names : Names} {code : Listing} {l : Loop} {start back : ℕ} {a : Int32} {s : State}
  (h : Standing code l start back) (hfind : l.scopes.find? l.var = some l.entry)
  (hlow : -2 ^ 31 ≤ l.lo.toInt) (hhigh : l.hi.toInt < 2 ^ 31)
  (ha : addressOf? code l.scopes s l.var = some a) (haligned : 4 ∣ a.toInt)
  (hbody : BodyReturns names code l (start + 7) back a s)

include h hfind hlow hhigh ha haligned hbody

/-- One round: the body is executed, and the variable is counted up by one. -/
theorem round_of_test {t : State} {k : ℤ} (ht : AtTest names code (start + 3) a s t k)
    (hlo : l.lo.toInt ≤ k) (hhi : k < l.hi.toInt) :
    ∃ b b' t', Steps names code 4 t b ∧ b.pc = start + 7 ∧ (b.cell a).toInt = k ∧
      Executes names code back a b b' ∧
      Steps names code 5 b' t' ∧ AtTest names code (start + 3) a s t' (k + 1) := by
  obtain ⟨n, hreached⟩ := ht.reached
  have hat : addressOf? code l.scopes t l.var = some a :=
    (addressOf?_of_sameFrame ht.frame).trans ha
  obtain ⟨b, htests, hpc, hcell, hframe⟩ := h.tests names hfind hat haligned ht.pc
  -- both bounds are words, so a value below the upper one is another word
  have hne : t.cell a ≠ Int32.ofInt l.hi.toInt := by
    intro heq
    have hk := ht.cell
    rw [heq, Int32.toInt_ofInt_of_le (by omega) (by omega)] at hk
    omega
  rw [if_neg hne] at hpc
  have hbcell : (b.cell a).toInt = k := by rw [hcell, ht.cell]
  have hbframe := ht.frame.trans hframe
  obtain ⟨b', m, hexecutes, hsteps, hreturned⟩ := executes_of_returned
    (hbody _ b (hreached.trans htests) hpc hbframe (by omega) (by omega))
  have hb'frame := hbframe.trans hreturned.frame
  have hb'a : addressOf? code l.scopes b' l.var = some a :=
    (addressOf?_of_sameFrame hb'frame).trans ha
  obtain ⟨t', hcounts, hpc', hcell', hframe'⟩ := h.counts names hfind hb'a haligned hreturned.pc
  have hone : (1 : Int32).toInt = 1 := by decide
  -- counting up stays at or below the upper bound, and does not wrap around
  have hnext : (t'.cell a).toInt = k + 1 := by
    rw [hcell', hreturned.cell, Machine.toInt_add_of_le (by omega) (by omega), hone, hbcell]
  exact ⟨b, b', t', htests, hpc, hbcell, hexecutes, hcounts, hpc', hnext, hb'frame.trans hframe', _,
    ((hreached.trans htests).trans hsteps).trans hcounts⟩

/-- From its test on, the loop takes the values that are left, and ends. -/
theorem rounds_of_test :
    ∀ (left : ℕ) {k : ℤ} {n : ℕ} {r t : State}, k + left = l.hi.toInt → l.lo.toInt ≤ k →
    AtTest names code (start + 3) a s t k → Steps names code n r t →
    ∃ s', Rounds names code (start + 7) back a (n + 4) r (Int.range k l.hi.toInt) s' ∧
      s'.pc = back + 5 ∧
      (s'.cell a).toInt = l.hi.toInt ∧ SameFrame s s'
  | 0, k, n, r, t, hk, _, ht, hr => by
    obtain rfl : k = l.hi.toInt := by omega
    have hat : addressOf? code l.scopes t l.var = some a :=
      (addressOf?_of_sameFrame ht.frame).trans ha
    obtain ⟨s', htests, hpc, hcell, hframe⟩ := h.tests names hfind hat haligned ht.pc
    rw [← ht.cell, Int32.ofInt_toInt, if_pos rfl] at hpc
    rw [range_of_ge (le_refl _)]
    exact ⟨s', .done (hr.trans htests), hpc, by rw [hcell, ht.cell], ht.frame.trans hframe⟩
  | left + 1, k, n, r, t, hk, hlo, ht, hr => by
    obtain ⟨b, b', t', htests, hpc, hcell, hexecutes, hcounts, ht'⟩ :=
      round_of_test h hfind hlow hhigh ha haligned hbody ht hlo (by omega)
    -- the five steps behind the body are the first ones of the way to the next execution
    obtain ⟨s', hrounds, hend⟩ :=
      rounds_of_test left (by push_cast at hk; omega) (by omega) ht' hcounts
    refine ⟨s', ?_, hend⟩
    rw [range_of_lt (by omega), ← hcell]
    rw [← hcell] at hrounds
    exact .next (hr.trans htests) hpc hexecutes hrounds

/-- The loop sets its variable, takes all values of its range, and ends. -/
theorem rounds_of_start (hle : l.lo.toInt ≤ l.hi.toInt) (hpc : s.pc = start) :
    ∃ s', Rounds names code (start + 7) back a 7 s (Int.range l.lo.toInt l.hi.toInt) s' ∧
      s'.pc = back + 5 ∧
      (s'.cell a).toInt = l.hi.toInt ∧ SameFrame s s' := by
  obtain ⟨t, hsets, hcell, hframe⟩ := h.sets names hfind ha haligned hpc
  have hlo : (t.cell a).toInt = l.lo.toInt := by
    rw [hcell, Int32.toInt_ofInt_of_le (by omega) (by omega)]
  have ht : AtTest names code (start + 3) a s t l.lo.toInt :=
    ⟨by rw [hsets.pc, hpc], hlo, hframe, 3, hsets.steps⟩
  exact rounds_of_test h hfind hlow hhigh ha haligned hbody (l.hi.toInt - l.lo.toInt).toNat
    (by omega) (le_refl _) ht hsets.steps

end

/-! ### Loops that are not left -/

section

variable {names : Names} {code : Listing} {s t : State}

/-- Straight code that ends where the machine cannot go on is not left. -/
theorem pc_le_of_stuck (hstuck : ∀ t', ¬ Advances names code t t') : ∀ {k n : ℕ} {s s' : State},
    Straight names code k s t → Steps names code n s s' → s'.pc ≤ s.pc + k
  | _, 0, s, s', _, hsteps => by
    obtain rfl : s = s' := hsteps
    exact Nat.le_add_right _ _
  | 0, n + 1, s, s', hstraight, hsteps => by
    obtain rfl : s = t := hstraight
    obtain ⟨s₁, hadvances, -⟩ := hsteps
    exact absurd hadvances (hstuck s₁)
  | k + 1, n + 1, s, s', hstraight, hsteps => by
    obtain ⟨s₁, hadvances, hpc, hrest⟩ := hstraight
    obtain ⟨s₂, hadvances', hsteps⟩ := hsteps
    obtain rfl := hadvances.unique hadvances'
    have hle := pc_le_of_stuck hstuck hrest hsteps
    omega

theorem not_advances_of_badStore {r r' : String} {ρ ρ' : Register}
    (hr : Register.ofName? r = some ρ) (hr' : Register.ofName? r' = some ρ') {a : Int32}
    (h : Fetched code s.pc "sw" [.reg r, .mem 0 r']) (ha : s.reg ρ' = a)
    (hodd : a.toUInt32 % 4 ≠ 0) : ¬ Advances names code s t := by
  have hstep : Machine.step names code s (.store ρ (Int32.ofInt (0 : Int64).toInt) ρ') =
      (s, .trapped (.badStore a.toUInt32)) := by
    have haddr : s.address (Int32.ofInt (0 : Int64).toInt) ρ' = a.toUInt32 := by
      rw [State.address, add_offset_zero ha]
    rw [Machine.step, haddr, State.store, if_neg hodd]
    rfl
  exact (h.traps (Machine.translate_two (Machine.translate_reg hr) (Machine.translate_mem hr')) rfl
    hstep).not_advances

theorem not_advances_of_unknown {r label : String} {ρ : Register} (hr : Register.ofName? r = some ρ)
    (h : Fetched code s.pc "la" [.reg r, .label label])
    (hnone : code.dataLabels.lookup label = none) :
    ¬ Advances names code s t := by
  have hstep : Machine.step names code s (.loadAddress ρ label) =
      (s, .trapped (.unknownSymbol label)) := by
    rw [Machine.step, State.loadAddress, hnone]
    rfl
  exact (h.traps (Machine.translate_two (Machine.translate_reg hr) rfl) rfl hstep).not_advances

variable {l : Loop} {start body back stop : ℕ} (h : Located code l start body back stop)
  (hname : l.entry.isGlobal = true → IsSymbol l.entry.name) (hpc : s.pc = start)

include h hname hpc

/-- A variable whose address is no multiple of four cannot be set. -/
theorem Located.not_left_of_odd {a : Int32} (hfind : l.scopes.find? l.var = some l.entry)
    (ha : addressOf? code l.scopes s l.var = some a) (hodd : a.toUInt32 % 4 ≠ 0) {n : ℕ}
    {s' : State} (hsteps : Steps names code n s s') : s'.pc ≠ stop := by
  obtain ⟨hstanding, rfl, rfl⟩ := h.standing hname
  obtain ⟨-, hsw, -⟩ := hstanding.set
  obtain ⟨s₁, h₁, hpc₁, hreg₀, -⟩ := hstanding.prepares names hfind ha hpc
  have hle := pc_le_of_stuck
    (fun _ => not_advances_of_badStore ofName?_t1 ofName?_t0 (hsw.at hpc₁) hreg₀ hodd) h₁ hsteps
  have hbody := h.body.le
  omega

/-- A global variable without a label has no address. -/
theorem Located.not_left_of_unknown (hglobal : l.entry.isGlobal = true)
    (hnone : code.dataLabels.lookup l.entry.name = none) {n : ℕ} {s' : State}
    (hsteps : Steps names code n s s') : s'.pc ≠ stop := by
  obtain ⟨hstanding, rfl, rfl⟩ := h.standing hname
  have haddress := hstanding.setAddress
  rw [loadAddress, if_pos hglobal] at haddress
  have hstay : Straight names code 0 s s := rfl
  have hle := pc_le_of_stuck (fun _ => not_advances_of_unknown ofName?_t0 (haddress.1.at hpc) hnone)
    hstay hsteps
  have hbody := h.body.le
  omega

end

/-! ### The loops of a program -/

/-- The loop runs exactly its range, from every state at its first instruction in which its variable
has a word at a multiple of four and its body comes to its end: it executes its body for the values
from the lower bound up to, but without, the upper one, in this order, and comes to the instruction
behind its last label with the upper bound. -/
def RunsRange (names : Names) (code : Listing) (l : Loop) (start body back stop : ℕ) : Prop :=
  ∀ (s : State) (a : Int32), s.pc = start → (l.entry.isGlobal = true → IsSymbol l.entry.name) →
    addressOf? code l.scopes s l.var = some a → 4 ∣ a.toInt →
    BodyReturns names code l body back a s → code.codeLabels.lookup l.done = some stop ∧
      ∃ s', Rounds names code body back a 7 s (Int.range l.lo.toInt l.hi.toInt) s' ∧ s'.pc = stop ∧
        (s'.cell a).toInt = l.hi.toInt ∧ SameFrame s s'

theorem Located.runsRange {code : Listing} {l : Loop} {start body back stop : ℕ}
    {ctx : Lower.Context} {w : Counting} (h : Located code l start body back stop)
    (hl : l.IsOf ctx w) (names : Names) :
    RunsRange names code l start body back stop := by
  intro s a hpc hname ha haligned hbody
  obtain ⟨hstanding, rfl, rfl⟩ := h.standing hname
  obtain ⟨-, -, -, -, hdone, -⟩ := hstanding.count
  exact ⟨hdone, rounds_of_start hstanding (Lower.resolve_eq_ok hl.entry).1 hl.le_lo hl.hi_lt ha
    haligned hbody hl.lo_le_hi hpc⟩

/-- **`for` loops run exactly their range**: if the text of a generated program is accepted, then
the code of each function holds a loop for each of its `for` loops, and every loop in it has its
place and runs its range. -/
theorem loops_run_their_range {abi : Abi} {p : RvBackend.Program} {code : Asm.Program}
    {text : String} {listing : Listing} (hcode : (Lower.lowerProgram abi p).code = .ok code)
    (htext : code.text? = some text) (hparse : Listing.parse text = .ok listing) (names : Names) :
    List.Forall₂ (fun f g => ∃ m n, Lower.HasLoops ⟨abi, f.name⟩ f.counts g.lines m n)
      (Lower.routines abi p)
      code.functions ∧
    ∀ g ∈ code.functions, ∀ (ctx : Lower.Context) (w : Counting) (l : Loop), l.IsOf ctx w →
      l.code <:+: g.lines →
      ∃ start body back stop, Located listing l start body back stop ∧
        RunsRange names listing l start body back stop := by
  obtain ⟨q, hlow, -⟩ := Lower.loweredProgram_of_code hcode
  refine ⟨hlow.functions.hasLoops, fun g hg ctx w l hl hlines => ?_⟩
  obtain ⟨start, body, back, stop, hlocated⟩ := located_of_lines htext hparse hg hlines
  exact ⟨start, body, back, stop, hlocated, hlocated.runsRange hl names⟩

/-- A program without data whose names are in order is accepted, however its slots lie, and the
lines of its loops stand in its listing. -/
theorem exists_accepted {abi : Abi} {p : RvBackend.Program} {l : Loop} (hp : Lower.Admissible abi p)
    (hframe : 0 < abi.frameSize.toInt) (hslot : 0 ≤ abi.slotSize.toInt)
    (h : (Lower.lowerProgram abi p).code.toOption.any (fun code =>
      decide (code.dataNames = [] ∧ ∃ g ∈ code.functions, l.code <:+: g.lines)) = true) :
    ∃ code text listing, (Lower.lowerProgram abi p).code = .ok code ∧ code.text? = some text ∧
      Listing.parse text = .ok listing ∧ listing.dataLabels = [] ∧
      (∃ g ∈ code.functions, l.code <:+: g.lines) ∧ ∃ i, CodeAt listing i l.code := by
  obtain ⟨code, hcode, htest⟩ := exists_ok_of_any h
  obtain ⟨hdata, g, hg, hlines⟩ := of_decide_eq_true htest
  obtain ⟨q, hlow, -⟩ := Lower.loweredProgram_of_code hcode
  have hprintable := hp.printable hframe hslot hlow
  obtain ⟨text, listing, htext, hparse, hreflects⟩ := hprintable.parse
  have hlabels := hreflects.dataLabels
  rw [hdata] at hlabels
  refine ⟨code, text, listing, hcode, htext, hparse, List.reverse_eq_nil_iff.mp hlabels,
    ⟨g, hg, hlines⟩, ?_⟩
  have hinner : g.codeLines <:+: code.codeLines :=
    List.infix_of_mem_flatten (List.mem_map_of_mem hg)
  obtain ⟨front, behind, hall⟩ := (hlines.trans (List.suffix_cons _ _).isInfix).trans hinner
  have hstands := hreflects.codeAt (List.nodup_append.mp hprintable.nodup).2.1
  rw [← hall, codeAt_append, codeAt_append] at hstands
  exact ⟨_, hstands.1.2⟩

/-- The sum of the numbers so far and the next one. -/
def nextSum : Expr := .binary {} .plus (.variable ⟨{}, "y"⟩) (.variable ⟨{}, "x"⟩)

/-- A block that assigns it. -/
def summingBody : Block := .mk {} none [] [.assign {} ⟨{}, "y"⟩ nextSum]

/-- A program that adds up the numbers from one on and before another. -/
def summingProgram (lo hi : ℤ) : RvBackend.Program where
  name := "summing"
  file := "summing.src"
  body := some (.mk {} (some ⟨[{ name := "x", kind := .variable, type := .integer, level := 1 },
      { name := "y", kind := .variable, type := .integer, level := 1 }]⟩) []
    [.count {} none "x" (.constant ⟨{}, .integer, lo⟩) (.constant ⟨{}, .integer, hi⟩)
      (some summingBody)])

/-- Its variables, with their slots. -/
def summingScopes : Scopes :=
  [⟨[{ name := "x", kind := .variable, type := .integer, level := 1, slot := -12 },
    { name := "y", kind := .variable, type := .integer, level := 1, slot := -16 }]⟩]

/-- Its loop. -/
def summingLoop (lo hi : Int64) : Loop where
  scopes := summingScopes
  entry := { name := "x", kind := .variable, type := .integer, level := 1, slot := -12 }
  var := "x"
  lo := lo
  hi := hi
  labels := 0
  body := (Lower.assignCode ⟨{}, "main"⟩ summingScopes ⟨{}, "y"⟩ nextSum).toOption.getD []

theorem made_summingLoop (lo hi : Int64) :
    Made (Lower.statement ⟨{}, "main"⟩ (summingLoop lo hi).scopes
      (.assign {} ⟨{}, "y"⟩ nextSum)) {} (summingLoop lo hi).body {} := rfl

theorem isOf_summingLoop {lo hi : Int64} (hlow : -2 ^ 31 ≤ lo.toInt) (hle : lo.toInt ≤ hi.toInt)
    (hhigh : hi.toInt < 2 ^ 31) :
    Loop.IsOf ⟨{}, "main"⟩ ⟨{}, none, "x", .constant ⟨{}, .integer, lo.toInt⟩,
      .constant ⟨{}, .integer, hi.toInt⟩, some summingBody⟩ (summingLoop lo hi) :=
  ⟨⟨_, rfl, rfl⟩, ⟨_, rfl, rfl⟩, hlow, hle, hhigh, rfl, rfl, {}, {}, rfl⟩

/-- A state at an instruction, with a frame of 128 bytes. -/
def framed (start : ℕ) : State :=
  (({} : State).start start).setReg Register.sp (Machine.stackTop - 128)

theorem reg_framed_sp (start : ℕ) : (framed start).reg Register.sp = Machine.stackTop - 128 :=
  State.reg_setReg_self _ _ (by decide)

theorem reg_framed_s0 (start : ℕ) : (framed start).reg Register.s0 = Machine.stackTop :=
  (State.reg_setReg_of_ne _ _ (by decide)).trans (Machine.reg_start_s0 {} start)

theorem addressOf?_framed (code : Listing) {scopes : Scopes} (start : ℕ) {name : String} {e : Entry}
    (he : scopes.find? name = some e) (hlocal : e.isGlobal = false) :
    addressOf? code scopes (framed start) name =
      some (Machine.stackTop + Int32.ofInt e.slot.toInt) := by
  rw [addressOf?, he, Option.bind_some, hlocal, reg_framed_s0]
  rfl

theorem addressOf?_summingLoop (code : Listing) (start : ℕ) (lo hi : Int64) :
    addressOf? code (summingLoop lo hi).scopes (framed start) "x" = some (Machine.stackTop - 12) :=
  (addressOf?_framed code start rfl rfl).trans (by decide)

theorem bodyReturns_summingLoop {code : Listing} {start body back stop i : ℕ} {lo hi : Int64}
    (h : Located code (summingLoop lo hi) start body back stop)
    (hcode : CodeAt code i (summingLoop lo hi).code) :
    BodyReturns {} code (summingLoop lo hi) body back (Machine.stackTop - 12) (framed start) := by
  have hy : addressOf? code (summingLoop lo hi).scopes (framed start) "y" = some _ :=
    addressOf?_framed code start rfl rfl
  refine bodyReturns_of_assign h nofun hcode (made_summingLoop lo hi) rfl ?_ (by decide) hy
    (by decide) (by decide) ?_ fun name hname => ?_
  · rw [reg_framed_sp]
    decide
  · rw [reg_framed_sp]
    decide
  · rw [reg_framed_sp]
    simp only [nextSum, Expr.variables, List.mem_append, List.mem_singleton] at hname
    obtain rfl | rfl := hname
    · exact ⟨_, hy, by decide, by decide⟩
    · exact ⟨_, addressOf?_summingLoop code start lo hi, by decide, by decide⟩

/-- The widest range runs through, with a body that adds up the numbers. -/
theorem widest_range_runs : ∃ code text listing,
    (Lower.lowerProgram {} (summingProgram (-2147483648) 2147483647)).code = .ok code ∧
    code.text? = some text ∧ Listing.parse text = .ok listing ∧
    ∃ start body back stop,
      Located listing (summingLoop (-2147483648) 2147483647) start body back stop ∧
      ∃ s', Rounds {} listing body back (Machine.stackTop - 12) 7 (framed start)
          (Int.range (-2147483648) 2147483647) s' ∧
        s'.pc = stop ∧ (s'.cell (Machine.stackTop - 12)).toInt = 2147483647 := by
  have hnamed : Lower.WellNamed {} (summingProgram (-2147483648) 2147483647) := by
    constructor <;> decide +kernel
  have hp : Lower.Admissible {} (summingProgram (-2147483648) 2147483647) := by
    refine ⟨?_, hnamed, ?_, ?_, ?_⟩ <;> decide +kernel
  obtain ⟨code, text, listing, hcode, htext, hparse, -, ⟨g, hg, hlines⟩, i, hstands⟩ :=
    @exists_accepted _ _ (summingLoop (-2147483648) 2147483647) hp (by decide) (by decide)
      (by decide +kernel)
  obtain ⟨-, hruns⟩ := loops_run_their_range hcode htext hparse {}
  have hloop := isOf_summingLoop (by decide : -2 ^ 31 ≤ (-2147483648 : Int64).toInt)
    (by decide : _ ≤ (2147483647 : Int64).toInt) (by decide)
  obtain ⟨start, body, back, stop, hlocated, hrange⟩ := hruns g hg _ _ _ hloop hlines
  obtain ⟨-, s', hrounds, hpc, hcell, -⟩ :=
    hrange (framed start) (Machine.stackTop - 12) rfl (fun hglobal => absurd hglobal (by decide))
      (addressOf?_summingLoop ..) (by decide) (bodyReturns_summingLoop hlocated hstands)
  exact ⟨code, text, listing, hcode, htext, hparse, start, body, back, stop, hlocated, s', hrounds,
    hpc, hcell⟩

/-- A program that counts from one number to another and does nothing else, with a variable of some
level. -/
def countingProgram (level lo hi : ℤ) : RvBackend.Program where
  name := "counting"
  file := "counting.src"
  body := some (.mk {} (some ⟨[{ name := "x", kind := .variable, type := .integer, level }]⟩) []
    [.count {} none "x" (.constant ⟨{}, .integer, lo⟩) (.constant ⟨{}, .integer, hi⟩) none])

/-- Its loop, with a slot for its variable. -/
def countingLoop (level : ℤ) (slot lo hi : Int64) : Loop where
  scopes := [⟨[{ name := "x", kind := .variable, type := .integer, level, slot }]⟩]
  entry := { name := "x", kind := .variable, type := .integer, level, slot }
  var := "x"
  lo := lo
  hi := hi
  labels := 0
  body := []

/-- It is the code of a `for` loop from one bound to the other. -/
theorem isOf_countingLoop (ctx : Lower.Context) (level : ℤ) (slot : Int64) {lo hi : Int64}
    (hlow : -2 ^ 31 ≤ lo.toInt) (hle : lo.toInt ≤ hi.toInt) (hhigh : hi.toInt < 2 ^ 31) :
    Loop.IsOf ctx ⟨{}, none, "x", .constant ⟨{}, .integer, lo.toInt⟩,
      .constant ⟨{}, .integer, hi.toInt⟩, none⟩ (countingLoop level slot lo hi) :=
  ⟨⟨_, rfl, rfl⟩, ⟨_, rfl, rfl⟩, hlow, hle, hhigh, rfl, rfl, {}, {}, made_pure_iff.mpr ⟨rfl, rfl⟩⟩

theorem addressOf?_countingLoop (code : Listing) (start : ℕ) (slot lo hi : Int64) :
    addressOf? code (countingLoop 1 slot lo hi).scopes (({} : State).start start) "x" =
      some (Machine.stackTop + Int32.ofInt slot.toInt) := by
  rw [addressOf?, Machine.reg_start_s0]
  rfl

/-- The text of a program is accepted, but a `for` loop in its code never comes to its end, though
its body would. -/
def NeverLeft (abi : Abi) (p : RvBackend.Program) (l : Loop) : Prop :=
  ∃ code text listing, (Lower.lowerProgram abi p).code = .ok code ∧ code.text? = some text ∧
    Listing.parse text = .ok listing ∧ (∃ ctx w, l.IsOf ctx w) ∧
    (∃ g ∈ code.functions, l.code <:+: g.lines) ∧ ∃ start body back stop,
    Located listing l start body back stop ∧
      (∀ a s, BodyReturns {} listing l body back a s) ∧
      ∀ n s', Steps {} listing n (({} : State).start start) s' → s'.pc ≠ stop

theorem neverLeft_of_located {abi : Abi} {p : RvBackend.Program} {l : Loop}
    (hp : Lower.Admissible abi p) (hframe : 0 < abi.frameSize.toInt)
    (hslot : 0 ≤ abi.slotSize.toInt) (h : (Lower.lowerProgram abi p).code.toOption.any (fun code =>
      decide (code.dataNames = [] ∧ ∃ g ∈ code.functions, l.code <:+: g.lines)) = true)
    (hof : ∃ ctx w, l.IsOf ctx w) (hbody : l.body = [])
    (hstuck : ∀ listing start body back stop, listing.dataLabels = [] →
      Located listing l start body back stop →
      ∀ n s', Steps {} listing n (({} : State).start start) s' → s'.pc ≠ stop) :
    NeverLeft abi p l := by
  obtain ⟨code, text, listing, hcode, htext, hparse, hdata, ⟨g, hg, hlines⟩, -⟩ :=
    exists_accepted hp hframe hslot h
  obtain ⟨start, body, back, stop, hlocated⟩ := located_of_lines htext hparse hg hlines
  exact ⟨code, text, listing, hcode, htext, hparse, hof, ⟨g, hg, hlines⟩, start, body, back, stop,
    hlocated, bodyReturns_of_nil hlocated hbody, hstuck listing start body back stop hdata hlocated⟩

/-- With slots of six bytes the variable has no word that can be set, and a local variable of level
zero has no word at all. -/
theorem unplaced_variables_stop_loops :
    NeverLeft { slotSize := 6 } (countingProgram 1 0 1) (countingLoop 1 (-14) 0 1) ∧
      NeverLeft {} (countingProgram 0 0 1) (countingLoop 0 (-12) 0 1) := by
  constructor
  · have hnamed : Lower.WellNamed { slotSize := 6 } (countingProgram 1 0 1) := by
      constructor <;> decide +kernel
    have hp : Lower.Admissible { slotSize := 6 } (countingProgram 1 0 1) := by
      refine ⟨?_, hnamed, ?_, ?_, ?_⟩ <;> decide +kernel
    have hof := isOf_countingLoop ⟨{ slotSize := 6 }, "main"⟩ 1 (-14)
      (by decide : -2 ^ 31 ≤ (0 : Int64).toInt) (by decide : _ ≤ (1 : Int64).toInt) (by decide)
    refine neverLeft_of_located hp (by decide) (by decide) (by decide +kernel) ⟨_, _, hof⟩ rfl
      fun listing start body back stop _ hlocated n s' => ?_
    exact hlocated.not_left_of_odd (fun hglobal => absurd hglobal (by decide)) rfl rfl
      (addressOf?_countingLoop ..) (by decide)
  · have hnamed : Lower.WellNamed {} (countingProgram 0 0 1) := by constructor <;> decide +kernel
    have hp : Lower.Admissible {} (countingProgram 0 0 1) := by
      refine ⟨?_, hnamed, ?_, ?_, ?_⟩ <;> decide +kernel
    have hname : Lower.IsName "x" := by decide +kernel
    have hof := isOf_countingLoop ⟨{}, "main"⟩ 0 (-12) (by decide : -2 ^ 31 ≤ (0 : Int64).toInt)
      (by decide : _ ≤ (1 : Int64).toInt) (by decide)
    refine neverLeft_of_located hp (by decide) (by decide) (by decide +kernel) ⟨_, _, hof⟩ rfl
      fun listing start body back stop hdata hlocated n s' => ?_
    exact hlocated.not_left_of_unknown (fun _ => hname.isSymbol) rfl rfl (by rw [hdata]; rfl)

end RvBackend.Simulation
