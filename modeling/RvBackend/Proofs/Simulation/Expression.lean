import RvBackend.Proofs.Meaning.Words
import RvBackend.Proofs.Settings.Valid
import RvBackend.Proofs.Simulation.Memory

/-! # Expressions

The code of an expression puts its value on the stack, whatever stands above it, and changes nothing
else that is still of use.

* `Calls`: what is assumed of calls.
* `sim_expr`: the code of an expression shows its value. -/

namespace RvBackend.Simulation

open Asm (Register Line)
open Machine (State CodeAt Fetched opCount codeAt_append opCount_append)
open Meaning (Evaluation World Can)

variable {α : Type} {S : Site} {n : ℕ} {x : Evaluation α} {Q : α → World → State → Prop}
  {w w' : World} {s s' : State}

/-! ### Operators -/

theorem Sim.binary {m : String} (op : Machine.BinaryOp)
    (hm : ∀ os, Machine.Operation.decode m os = Machine.Operation.ofBinary op os)
    (h : Fetched S.code s.pc m [Lower.t0, Lower.t0, Lower.t1])
    (hnext : ∀ s', s'.pc = s.pc + 1 →
      s'.reg Register.t0 = op.apply (s.reg Register.t0) (s.reg Register.t1) →
      Still [Register.t0] s s' → Sim S n x Q s' w) : Sim S n x Q s w :=
  Sim.set (Machine.advances_binary ofName?_t0 ofName?_t0 ofName?_t1 hm h) (by decide)
    fun s' hpc hreg hstill _ => hnext s' hpc hreg hstill

theorem Sim.unary {m : String} (op : Machine.UnaryOp)
    (hm : ∀ os, Machine.Operation.decode m os = Machine.Operation.ofUnary op os)
    (h : Fetched S.code s.pc m [Lower.t0, Lower.t0])
    (hnext : ∀ s', s'.pc = s.pc + 1 → s'.reg Register.t0 = op.apply (s.reg Register.t0) →
      Still [Register.t0] s s' → Sim S n x Q s' w) : Sim S n x Q s w :=
  Sim.set (Machine.advances_unary ofName?_t0 ofName?_t0 hm h) (by decide)
    fun s' hpc hreg hstill _ => hnext s' hpc hreg hstill

theorem Sim.flip (h : Fetched S.code s.pc "xori" [Lower.t0, Lower.t0, .imm 1])
    (hnext : ∀ s', s'.pc = s.pc + 1 → s'.reg Register.t0 = s.reg Register.t0 ^^^ 1 →
      Still [Register.t0] s s' → Sim S n x Q s' w) : Sim S n x Q s w :=
  Sim.set (Machine.advances_xori ofName?_t0 ofName?_t0 h) (by decide)
    fun s' hpc hreg hstill _ => hnext s' hpc hreg hstill

/-- A truth value of the difference in `t0`. -/
theorem Sim.comparison {op : Operator} {a b : Int32} (hop : op.isRelational = true)
    (hcode : CodeAt S.code s.pc (Lower.comparison op)) (hreg : s.reg Register.t0 = a - b)
    (hnext : ∀ s' v, Meaning.binary? a b op = some v → s'.reg Register.t0 = v →
      s'.pc = s.pc + opCount (Lower.comparison op) → Still [Register.t0] s s' → Sim S n x Q s' w) :
    Sim S n x Q s w := by
  obtain ⟨-, -, -, -, -, -, -, hequal, hnotEqual, hless, hgreater, hlessOrEqual, hgreaterOrEqual⟩ :=
    Meaning.binary?_eq_some a b
  cases op with
  | equal =>
    obtain ⟨hseqz, -⟩ := hcode
    refine Sim.unary .seqz (fun _ => rfl) hseqz fun s₁ hpc hreg₁ hstill =>
      hnext s₁ _ hequal ?_ hpc hstill
    rw [hreg₁, hreg]
    rfl
  | notEqual =>
    obtain ⟨hsnez, -⟩ := hcode
    refine Sim.unary .snez (fun _ => rfl) hsnez fun s₁ hpc hreg₁ hstill =>
      hnext s₁ _ hnotEqual ?_ hpc hstill
    rw [hreg₁, hreg]
    rfl
  | less =>
    obtain ⟨hsltz, -⟩ := hcode
    refine Sim.unary .sltz (fun _ => rfl) hsltz fun s₁ hpc hreg₁ hstill =>
      hnext s₁ _ hless ?_ hpc hstill
    rw [hreg₁, hreg]
    rfl
  | greater =>
    obtain ⟨hsgtz, -⟩ := hcode
    refine Sim.unary .sgtz (fun _ => rfl) hsgtz fun s₁ hpc hreg₁ hstill =>
      hnext s₁ _ hgreater ?_ hpc hstill
    rw [hreg₁, hreg]
    rfl
  | lessOrEqual =>
    obtain ⟨hsgtz, hxori, -⟩ := hcode
    refine Sim.unary .sgtz (fun _ => rfl) hsgtz fun s₁ hpc hreg₁ hstill => ?_
    rw [← hpc] at hxori
    refine Sim.flip hxori fun s₂ hpc' hreg₂ hstill' =>
      hnext s₂ _ hlessOrEqual ?_ (by rw [hpc', hpc]; rfl)
      ((hstill.trans hstill').mono (by simp))
    rw [hreg₂, hreg₁, hreg]
    rfl
  | greaterOrEqual =>
    obtain ⟨hsltz, hxori, -⟩ := hcode
    refine Sim.unary .sltz (fun _ => rfl) hsltz fun s₁ hpc hreg₁ hstill => ?_
    rw [← hpc] at hxori
    refine Sim.flip hxori fun s₂ hpc' hreg₂ hstill' =>
      hnext s₂ _ hgreaterOrEqual ?_ (by rw [hpc', hpc]; rfl)
      ((hstill.trans hstill').mono (by simp))
    rw [hreg₂, hreg₁, hreg]
    rfl
  | _ => cases hop

/-- The operator of two words in `t0` and `t1`. -/
theorem Sim.operation {loc : Location} {op : Operator} {code : List Line}
    (h : Lower.operation loc op = .ok code) (hcode : CodeAt S.code s.pc code)
    (hnext : ∀ s' v, Meaning.binary? (s.reg Register.t0) (s.reg Register.t1) op = some v →
      s'.reg Register.t0 = v → s'.pc = s.pc + opCount code → Still [Register.t0, Register.t1] s s' →
      Sim S n x Q s' w) : Sim S n x Q s w := by
  obtain ⟨hplus, hminus, htimes, hdivide, hmod, hand, hor, -⟩ :=
    Meaning.binary?_eq_some (s.reg Register.t0) (s.reg Register.t1)
  have hone : ∀ {m : String} (bop : Machine.BinaryOp),
      (∀ os, Machine.Operation.decode m os = Machine.Operation.ofBinary bop os) →
      Meaning.binary? (s.reg Register.t0) (s.reg Register.t1) op =
        some (bop.apply (s.reg Register.t0) (s.reg Register.t1)) →
      code = [.op m [Lower.t0, Lower.t0, Lower.t1]] → Sim S n x Q s w := by
    rintro m bop hm hv rfl
    exact Sim.binary bop hm hcode.1 fun s₁ hpc hreg hstill =>
      hnext s₁ _ hv hreg hpc (hstill.mono (by simp))
  have hrelational : op.isRelational = true →
      code = .op "sub" [Lower.t0, Lower.t0, Lower.t1] :: Lower.comparison op → Sim S n x Q s w := by
    rintro hop rfl
    obtain ⟨hsub, hcompare⟩ := hcode
    refine Sim.binary .sub (fun _ => rfl) hsub fun s₁ hpc hreg hstill => ?_
    rw [← hpc] at hcompare
    refine Sim.comparison hop hcompare hreg fun s₂ v hv hreg' hpc' hstill' => ?_
    refine hnext s₂ v hv hreg' ?_ ((hstill.trans hstill').mono (by simp))
    rw [hpc', hpc, Machine.opCount_op]
    omega
  cases op with
  | plus => exact hone .add (fun _ => rfl) hplus (Except.ok.inj h).symm
  | minus => exact hone .sub (fun _ => rfl) hminus (Except.ok.inj h).symm
  | times => exact hone .mul (fun _ => rfl) htimes (Except.ok.inj h).symm
  | divide => exact hone .div (fun _ => rfl) hdivide (Except.ok.inj h).symm
  | mod => exact hone .rem (fun _ => rfl) hmod (Except.ok.inj h).symm
  | and =>
    obtain rfl := Except.ok.inj h
    obtain ⟨hfirst, hsecond, hboth, -⟩ := hcode
    refine Sim.unary .snez (fun _ => rfl) hfirst fun s₁ hpc hreg hstill => ?_
    rw [← hpc] at hsecond
    refine Sim.set (Machine.advances_unary ofName?_t1 ofName?_t1 (fun _ => rfl) hsecond) (by decide)
      fun s₂ hpc' hreg' hstill' _ => ?_
    rw [← hpc, ← hpc'] at hboth
    refine Sim.binary .and (fun _ => rfl) hboth fun s₃ hpc'' hreg'' hstill'' => ?_
    refine hnext s₃ _ hand ?_ (by rw [hpc'', hpc', hpc]; rfl)
      (((hstill.trans hstill').trans hstill'').mono (by simp))
    rw [hreg'', hreg', hstill'.regs _ (by decide), hreg, hstill.regs _ (by decide)]
    rfl
  | or =>
    obtain rfl := Except.ok.inj h
    obtain ⟨hboth, htruth, -⟩ := hcode
    refine Sim.binary .or (fun _ => rfl) hboth fun s₁ hpc hreg hstill => ?_
    rw [← hpc] at htruth
    refine Sim.unary .snez (fun _ => rfl) htruth fun s₂ hpc' hreg' hstill' => ?_
    refine hnext s₂ _ hor ?_ (by rw [hpc', hpc]; rfl) ((hstill.trans hstill').mono (by simp))
    rw [hreg', hreg]
    rfl
  | less => exact hrelational rfl (Except.ok.inj h).symm
  | lessOrEqual => exact hrelational rfl (Except.ok.inj h).symm
  | greater => exact hrelational rfl (Except.ok.inj h).symm
  | greaterOrEqual => exact hrelational rfl (Except.ok.inj h).symm
  | equal => exact hrelational rfl (Except.ok.inj h).symm
  | notEqual => exact hrelational rfl (Except.ok.inj h).symm
  | not => cases h
  | neg => cases h
  | other _ => cases h

/-- The operator of one word in `t0`. -/
theorem Sim.unaryOperation {loc : Location} {op : Operator} {code : List Line}
    (h : Lower.unaryOperation loc op = .ok code) (hcode : CodeAt S.code s.pc code)
    (hnext : ∀ s' v, Meaning.unary? (s.reg Register.t0) op = some v → s'.reg Register.t0 = v →
      s'.pc = s.pc + opCount code → Still [Register.t0] s s' → Sim S n x Q s' w) :
    Sim S n x Q s w := by
  obtain ⟨hneg, hminus, hnot⟩ := Meaning.unary?_eq_some (s.reg Register.t0)
  unfold Lower.unaryOperation at h
  split at h
  · cases h
    exact Sim.unary .neg (fun _ => rfl) hcode.1 fun s₁ hpc hreg hstill =>
      hnext s₁ _ hneg hreg hpc hstill
  · cases h
    exact Sim.unary .neg (fun _ => rfl) hcode.1 fun s₁ hpc hreg hstill =>
      hnext s₁ _ hminus hreg hpc hstill
  · cases h
    exact Sim.unary .seqz (fun _ => rfl) hcode.1 fun s₁ hpc hreg hstill =>
      hnext s₁ _ hnot hreg hpc hstill
  · cases h

/-! ### Arguments -/

/-- From an address up to another one, memory holds these words. -/
def Stacks (s : State) (a : Int32) : List Int32 → Int32 → Prop
  | [], b => a = b
  | v :: vs, b => s.cell a = v ∧ Stacks s (a + 4) vs b

theorem Stacks.concat {s : State} {v b : Int32} (hv : s.cell b = v) :
    ∀ {vs : List Int32} {a : Int32},
    Stacks s a vs b → Stacks s a (vs ++ [v]) (b + 4)
  | [], _, h => by
    obtain rfl := h
    exact ⟨hv, rfl⟩
  | _ :: _, _, h => ⟨h.1, Stacks.concat hv h.2⟩

theorem Stacks.still {s s' : State} {rs : List Register} {b : Int32} (h : Still rs s s') :
    ∀ {vs : List Int32} {a : Int32}, Stacks s a vs b → Stacks s' a vs b
  | [], _, hs => hs
  | _ :: _, _, hs => ⟨(h.cells _).trans hs.1, Stacks.still h hs.2⟩

/-- The registers of the arguments, which differ from each other and from those that code uses
itself. -/
structure ArgumentRegisters (abi : Abi) (ρs : List Register) : Prop where
  names : List.Forall₂ (fun r ρ => Register.ofName? r = some ρ) abi.registers ρs
  nodup : ρs.Nodup
  free : ∀ ρ ∈ ρs, ρ ∉ [0, Register.ra, Register.sp, Register.s0, Register.t0, Register.t1]

/-- The first registers hold the arguments. -/
def Arguments (ρs : List Register) (s : State) (vs : List Int32) : Prop :=
  List.Forall₂ (fun ρ v => s.reg ρ = v) (ρs.take vs.length) vs

theorem ArgumentRegisters.length {abi : Abi} {ρs : List Register} (h : ArgumentRegisters abi ρs) :
    ρs.length = abi.maxArgs := h.names.length_eq.symm

/-- The words on the stack go into registers, the top one first. -/
theorem Sim.pops {b : Int32} {rs : List String} {ρs : List Register}
    (hrs : List.Forall₂ (fun r ρ => Register.ofName? r = some ρ) rs ρs) :
    ∀ {s : State} {us : List Int32}, ρs.Nodup →
    (∀ ρ ∈ ρs, ρ ∉ [0, Register.ra, Register.sp, Register.s0, Register.t0, Register.t1]) →
    us.length = ρs.length → CodeAt S.code s.pc (rs.flatMap fun r => Lower.pop (.reg r)) →
    4 ∣ (s.reg Register.sp).toInt → Stacks s (s.reg Register.sp) us b →
    (∀ s', s'.pc = s.pc + opCount (rs.flatMap fun r => Lower.pop (.reg r)) →
      s'.reg Register.sp = b →
      List.Forall₂ (fun ρ v => s'.reg ρ = v) ρs us → Still (ρs ++ [Register.sp]) s s' →
      Sim S n x Q s' w) →
    Sim S n x Q s w := by
  induction hrs with
  | nil =>
    intro s us _ _ hlen _ _ hstack hnext
    obtain rfl : us = [] := List.length_eq_zero_iff.mp hlen
    exact hnext s rfl hstack .nil ⟨fun _ _ => rfl, fun _ => rfl, rfl, rfl⟩
  | @cons r ρ rs ρs hr _ ih =>
    intro s us hnodup hfree hlen hcode haligned hstack hnext
    obtain _ | ⟨u, us⟩ := us
    · cases hlen
    rw [List.nodup_cons] at hnodup
    rw [List.forall_mem_cons] at hfree
    have hρsp : ρ ≠ Register.sp := fun h => hfree.1 (by rw [h]; decide)
    have hρzero : ρ.val ≠ 0 := fun h => hfree.1 (by rw [show ρ = 0 from Fin.ext h]; decide)
    rw [List.flatMap_cons, codeAt_append] at hcode
    refine Sim.pop hr hρsp hρzero hcode.1 haligned fun s₁ hpc hpopped => ?_
    have hcode' := hcode.2
    have htwo : opCount (Lower.pop (.reg r)) = 2 := rfl
    rw [htwo, ← hpc] at hcode'
    have hstack' : Stacks s₁ (s₁.reg Register.sp) us b := by
      rw [hpopped.sp]
      exact Stacks.still hpopped.still hstack.2
    refine ih hnodup.2 hfree.2 (Nat.succ.inj hlen) hcode' ?_ hstack'
      fun s₂ hpc' hsp hvalues hstill => ?_
    · rw [hpopped.sp]
      exact dvd_add_four haligned
    · have hρ : ρ ∉ ρs ++ [Register.sp] := by
        rw [List.mem_append, List.mem_singleton, not_or]
        exact ⟨hnodup.1, hρsp⟩
      refine hnext s₂ ?_ hsp (.cons ?_ hvalues) ((hpopped.still.trans hstill).mono ?_)
      · rw [hpc', hpc, List.flatMap_cons, opCount_append, htwo, Nat.add_assoc]
      · rw [hstill.regs ρ hρ, hpopped.reg]
        exact hstack.1
      · intro r' hr'
        simp only [List.mem_append, List.mem_cons, List.not_mem_nil, or_false] at hr' ⊢
        tauto

/-- The arguments on the stack, the last one on top, go into their registers. -/
theorem Sim.arguments {abi : Abi} {b : Int32} {ρs : List Register} {vs : List Int32}
    (hρs : ArgumentRegisters abi ρs) (hvs : vs.length ≤ abi.maxArgs)
    (hcode : CodeAt S.code s.pc ((abi.registers.take vs.length).reverse.flatMap
      fun r => Lower.pop (.reg r)))
    (haligned : 4 ∣ (s.reg Register.sp).toInt) (hstack : Stacks s (s.reg Register.sp) vs.reverse b)
    (hnext : ∀ s',
      s'.pc =
      s.pc + opCount ((abi.registers.take vs.length).reverse.flatMap fun r => Lower.pop (.reg r)) →
      s'.reg Register.sp = b → Arguments ρs s' vs → Still (ρs ++ [Register.sp]) s s' →
      Sim S n x Q s' w) :
    Sim S n x Q s w := by
  have hnames := List.forall₂_reverse_iff.mpr (List.forall₂_take vs.length hρs.names)
  refine Sim.pops hnames ?_ ?_ ?_ hcode haligned hstack fun s' hpc hsp hvalues hstill => ?_
  · rw [List.nodup_reverse]
    exact hρs.nodup.sublist (List.take_sublist _ _)
  · intro ρ hρ
    exact hρs.free ρ (List.mem_of_mem_take (List.mem_reverse.mp hρ))
  · rw [List.length_reverse, List.length_reverse, List.length_take, hρs.length]
    omega
  · refine hnext s' hpc hsp (List.forall₂_reverse_iff.mp hvalues) (hstill.mono ?_)
    intro ρ hρ
    rw [List.mem_append] at hρ ⊢
    exact hρ.imp_left fun h => List.mem_of_mem_take (List.mem_reverse.mp h)

/-! ### Calls -/

/-- A call has come back with a value: the stack is as it was. -/
structure Returned (S : Site) (s : State) (w : World) (v : Int32) (w' : World) (s' : State) :
    Prop where
  pc : s'.pc = s.pc + 1
  a0 : s'.reg Register.a0 = v
  sp : s'.reg Register.sp = s.reg Register.sp
  undisturbed : Undisturbed (s.reg Register.sp).toInt s s'
  agrees : Agrees S w' s'
  locals : w'.locals = w.locals

/-- A call instruction shows what calls come to. -/
def Calls (S : Site) (ρs : List Register) (n : ℕ) (call : String → List Int32 → Evaluation Int32) :
    Prop :=
  ∀ {callee : String} {vs : List Int32} {s : State} {w : World}, callee.toList.head? ≠ some '.' →
    Fetched S.code s.pc "jal" [Lower.ra, .label callee] → Arguments ρs s vs → Stacked S s →
    Agrees S w s → Sim S n (call callee vs) (Returned S s w) s w

/-! ### Expressions -/

/-- What holds of the code of a program: where its data is, and what it is run with. -/
structure Base (S : Site) (abi : Abi) (globals : Scopes) (ρs : List Register) : Prop where
  site : S.Valid
  printHelper : S.names.printHelper = abi.printHelper
  readHelper : S.names.readHelper = abi.readHelper
  valid : abi.Valid
  registers : ArgumentRegisters abi ρs
  known : Known S globals
  small : S.code.instructions.size < 2 ^ 28

/-- What holds while a function runs: it has a frame and an exit, and calls do what they should. -/
structure Ground (S : Site) (F : Frame) (ctx : Lower.Context) (globals : Scopes)
    (ρs : List Register) (n : ℕ) (call : String → List Int32 → Evaluation Int32) :
    Prop extends Base S ctx.abi globals ρs where
  frame : F.Valid S
  exit : S.code.codeLabels.lookup ctx.exitLabel = some F.exit
  calls : Calls S ρs n call

/-- The value of an expression has been put on the stack. -/
structure Evaluated (S : Site) (k : ℕ) (s : State) (w : World) (v : Int32) (w' : World)
    (s' : State) : Prop where
  pc : s'.pc = s.pc + k
  pushed : Pushed S s s' v
  agrees : Agrees S w' s'
  locals : w'.locals = w.locals

/-- The values of expressions have been put on the stack, one after the other. -/
structure EvaluatedAll (S : Site) (count k : ℕ) (s : State) (w : World) (vs : List Int32)
    (w' : World) (s' : State) : Prop where
  count : vs.length = count
  pc : s'.pc = s.pc + k
  stack : Stacks s' (s'.reg Register.sp) vs.reverse (s.reg Register.sp)
  below : (s'.reg Register.sp).toInt ≤ (s.reg Register.sp).toInt
  undisturbed : Undisturbed (s.reg Register.sp).toInt s s'
  stacked : Stacked S s'
  agrees : Agrees S w' s'
  locals : w'.locals = w.locals

theorem Pushed.below {v : Int32} (h : Pushed S s s' v) (hS : S.Valid) (hst : Stacked S s) :
    (s'.reg Register.sp).toInt = (s.reg Register.sp).toInt - 4 := by
  have hfloor := hS.floor
  have hsp := hst.floor
  rw [h.sp, toInt_sub_four (by omega)]

theorem Evaluated.env {F : Frame} {es : List Entry} {k : ℕ} {v : Int32}
    (h : Evaluated S k s w v w' s') (hS : S.Valid) (hF : F.Valid S) (hes : Visible F es)
    (hst : Stacked S s) (henv : Env F es w s) :
    Env F es w' s' := by
  have hbelow := h.pushed.below hS hst
  have := henv.below
  exact henv.undisturbed hS hF hes h.pushed.undisturbed (by omega) h.locals

/-- The word of a register is put on the stack as the value of an expression. -/
theorem Sim.result {r : String} {ρ : Register} {v : Int32} {k : ℕ} {s₁ : State}
    {x : Evaluation Int32} (hr : Register.ofName? r = some ρ) (hρ : ρ ≠ Register.sp) (hS : S.Valid)
    (hst : Stacked S s) (hcode : CodeAt S.code s₁.pc (Lower.push (.reg r))) (hreg : s₁.reg ρ = v)
    (hsp : s₁.reg Register.sp = s.reg Register.sp)
    (hund : Undisturbed (s.reg Register.sp).toInt s s₁) (hag : Agrees S w' s₁)
    (hlocals : w'.locals = w.locals) (hpc : s₁.pc + 2 = s.pc + k) (hcan : Can x w' (.ok v) w') :
    Sim S n x (Evaluated S k s w) s₁ w' := by
  refine Sim.push hr hρ hS hcode (hst.of_sp hsp) hag fun s₂ hpc₂ hpushed hag₂ => ?_
  refine Sim.of_can hcan ⟨by rw [hpc₂, hpc], ⟨?_, ?_, ?_, hpushed.stacked⟩, hag₂, hlocals⟩
  · rw [hpushed.sp, hsp]
  · rw [hpushed.top, hreg]
  · exact hund.trans hpushed.undisturbed (by rw [hsp])

section

variable {F : Frame} {ctx : Lower.Context} {tables globals : Scopes} {ρs : List Register}
  {call : String → List Int32 → Evaluation Int32} (hground : Ground S F ctx globals ρs n call)
  (hvisible : Visible F (entriesIn tables))

include hground hvisible

mutual

/-- **Expressions**: the code of an expression shows its value on the stack. -/
theorem sim_expr : ∀ {e : Expr} {code : List Line} {s : State} {w : World},
    Lower.expression ctx.abi (tables ++ globals) e = .ok code →
    (∀ c ∈ e.callees, c.toList.head? ≠ some '.') →
    CodeAt S.code s.pc code → Stacked S s → Env F (entriesIn tables) w s → Agrees S w s →
    Sim S n (Meaning.expr call e) (Evaluated S (opCount code) s w) s w
  | .missing, _, _, _, h, _, _, _, _, _ => by simp [Lower.expression] at h
  | .constant c, _, s, w, h, _, hcode, hst, _, hag => by
    obtain ⟨v, hv, rfl⟩ := Lower.literal_eq_ok h
    obtain ⟨hval, -⟩ := Lower.toInt_immediate hv
    obtain ⟨hli, hpush⟩ := hcode
    refine Sim.set (Machine.advances_li ofName?_t0 hli) (by decide) fun s₁ hpc hreg hstill _ => ?_
    rw [Meaning.expr]
    refine Sim.result ofName?_t0 (by decide) hground.site hst (hpush.at hpc) hreg
      (hstill.regs _ (by decide)) (hstill.undisturbed (by decide) _) (hstill.agrees hag) rfl
      (by rw [hpc]; rfl) ?_
    rw [hval]
    exact Meaning.can_pure _ _
  | .variable r, _, s, w, h, _, hcode, hst, henv, hag => by
    obtain ⟨e, he, rfl⟩ := Lower.load_eq_ok h
    obtain ⟨a, hmeant⟩ := henv.resolve hvisible rfl hground.known he
    simp only [codeAt_append, opCount_append, opCount_loadAddress, Machine.opCount_op,
      Machine.opCount_remark, Machine.opCount_nil] at hcode
    obtain ⟨⟨⟨-, haddr⟩, hlw, -⟩, hpush⟩ := hcode
    refine Sim.loadAddress hmeant henv.s0 haddr fun s₁ hpc hreg hstill => ?_
    refine Sim.set
      (Machine.advances_lw ofName?_t0 ofName?_t0 (hlw.at (by omega)) (add_offset_zero hreg)
        (hmeant.aligned hground.site hground.frame)) (by decide) fun s₂ hpc' hreg' hstill' _ => ?_
    have hboth := hstill.trans hstill'
    rw [Meaning.expr]
    refine Sim.result ofName?_t0 (by decide) hground.site hst (hpush.at (by omega)) ?_
      (hboth.regs _ (by decide)) (hboth.undisturbed (by decide) _) (hboth.agrees hag) rfl ?_
      (hmeant.read hag)
    · rw [hreg', hstill.cells]
    · simp only [opCount_append, opCount_loadAddress, Machine.opCount_op, Machine.opCount_remark,
        Machine.opCount_nil, Machine.opCount_push]
      omega
  | .binary loc op left right, _, s, w, h, hc, hcode, hst, henv, hag => by
    obtain ⟨lc, rc, oc, hl, hr, ho, rfl⟩ := Lower.expression_binary h
    rw [Expr.callees, List.forall_mem_append] at hc
    simp only [codeAt_append, opCount_append, Machine.opCount_pop] at hcode
    obtain ⟨⟨⟨⟨⟨hlc, hrc⟩, hpop1⟩, hpop0⟩, hoc⟩, hpush⟩ := hcode
    rw [Meaning.expr]
    refine Sim.bind (sim_expr hl hc.1 hlc hst henv hag) fun a w₁ s₁ h₁ => ?_
    have hpc₁ := h₁.pc
    have henv₁ := h₁.env hground.site hground.frame hvisible hst henv
    refine Sim.bind (sim_expr hr hc.2 (hrc.at hpc₁) h₁.pushed.stacked henv₁ h₁.agrees)
      fun b w₂ s₂ h₂ => ?_
    have hpc₂ := h₂.pc
    refine Sim.pop ofName?_t1 (by decide) (by decide) (hpop1.at (by omega))
      h₂.pushed.stacked.aligned fun s₃ hpc₃ hpop₃ => ?_
    have hsp₃ := hpop₃.sp_of_pushed h₂.pushed
    refine Sim.pop ofName?_t0 (by decide) (by decide) (hpop0.at (by omega))
      (by rw [hsp₃]; exact h₁.pushed.stacked.aligned) fun s₄ hpc₄ hpop₄ => ?_
    have hsp₄ : s₄.reg Register.sp = s.reg Register.sp := by
      rw [hpop₄.sp, hsp₃, h₁.pushed.sp, Int32.sub_add_cancel]
    have ht1 : s₄.reg Register.t1 = b := by
      rw [hpop₄.still.regs _ (by decide), hpop₃.reg, h₂.pushed.top]
    have ht0 : s₄.reg Register.t0 = a := by
      rw [hpop₄.reg, hpop₃.still.cells, hsp₃, h₂.pushed.undisturbed.keeps _ le_rfl, h₁.pushed.top]
    refine Sim.operation ho (hoc.at (by omega)) fun s₅ v hv hreg hpc₅ hstill => ?_
    rw [ht0, ht1] at hv
    have hbelow := h₁.pushed.below hground.site hst
    have hpops := (hpop₃.still.trans hpop₄.still).trans hstill
    refine Sim.result ofName?_t0 (by decide) hground.site hst (hpush.at (by omega)) hreg ?_ ?_
      (hpops.agrees h₂.agrees) (h₂.locals.trans h₁.locals) ?_ (Meaning.can_determined hv w₂)
    · rw [hstill.regs _ (by decide), hsp₄]
    · exact (h₁.pushed.undisturbed.trans h₂.pushed.undisturbed (by omega)).trans
        (hpops.undisturbed (by decide) _) le_rfl
    · simp only [opCount_append, Machine.opCount_pop, Machine.opCount_push]
      omega
  | .unary loc op operand, _, s, w, h, hc, hcode, hst, henv, hag => by
    obtain ⟨c, oc, he, ho, rfl⟩ := Lower.expression_unary h
    simp only [codeAt_append, opCount_append, Machine.opCount_pop] at hcode
    obtain ⟨⟨⟨hc', hpop⟩, hoc⟩, hpush⟩ := hcode
    rw [Meaning.expr]
    refine Sim.bind (sim_expr he hc hc' hst henv hag) fun a w₁ s₁ h₁ => ?_
    have hpc₁ := h₁.pc
    refine Sim.pop ofName?_t0 (by decide) (by decide) (hpop.at hpc₁) h₁.pushed.stacked.aligned
      fun s₂ hpc₂ hpop₂ => ?_
    refine Sim.unaryOperation ho (hoc.at (by omega)) fun s₃ v hv hreg hpc₃ hstill => ?_
    rw [hpop₂.reg, h₁.pushed.top] at hv
    have hpops := hpop₂.still.trans hstill
    refine Sim.result ofName?_t0 (by decide) hground.site hst (hpush.at (by omega)) hreg ?_ ?_
      (hpops.agrees h₁.agrees) h₁.locals ?_ (Meaning.can_determined hv w₁)
    · rw [hstill.regs _ (by decide), hpop₂.sp_of_pushed h₁.pushed]
    · exact h₁.pushed.undisturbed.trans (hpops.undisturbed (by decide) _) le_rfl
    · simp only [opCount_append, Machine.opCount_pop, Machine.opCount_push]
      omega
  | .call loc callee args, _, s, w, h, hc, hcode, hst, henv, hag => by
    obtain ⟨c, hcheck, hargs, rfl⟩ := Lower.expression_call h
    rw [Expr.callees, List.forall_mem_cons] at hc
    rw [codeAt_append, Lower.transfer, codeAt_append, codeAt_append, opCount_append] at hcode
    obtain ⟨hc', ⟨hpops, hjal, -⟩, hpush⟩ := hcode
    rw [Meaning.expr]
    refine Sim.bind (sim_exprs hargs hc.2 hc' hst henv hag) fun vs w₁ s₁ h₁ => ?_
    have hpc₁ := h₁.pc
    rw [← h₁.count] at hpops hjal hpush hcheck ⊢
    refine Sim.arguments hground.registers hcheck (hpops.at hpc₁) h₁.stacked.aligned h₁.stack
      fun s₂ hpc₂ hsp₂ hvalues hstill => ?_
    refine Sim.andThen
      (hground.calls hc.1 (hjal.at (by omega)) hvalues (hst.of_sp hsp₂) (hstill.agrees h₁.agrees))
      fun v w₂ s₃ h₃ => ?_
    have hpc₃ := h₃.pc
    have hs0 : Register.s0 ∉ ρs ++ [Register.sp] := by
      rw [List.mem_append, not_or]
      exact ⟨fun h => hground.registers.free _ h (by decide), by decide⟩
    refine Sim.result ofName?_a0 (by decide) hground.site hst (hpush.at ?_) h₃.a0 (h₃.sp.trans hsp₂)
      ?_ h₃.agrees (h₃.locals.trans h₁.locals) ?_ (Meaning.can_pure _ _)
    · rw [Machine.opCount_op, Machine.opCount_nil]
      omega
    · exact (h₁.undisturbed.trans (hstill.undisturbed hs0 _) le_rfl).trans h₃.undisturbed
        (by rw [hsp₂])
    · rw [Lower.transfer]
      simp only [opCount_append, Machine.opCount_op, Machine.opCount_nil, Machine.opCount_push]
      omega

theorem sim_exprs {callee : String} :
    ∀ {es : List Expr} {i : ℕ} {code : List Line} {s : State} {w : World},
    Lower.arguments ctx.abi (tables ++ globals) callee i es = .ok code →
    (∀ c ∈ argumentsCallees es, c.toList.head? ≠ some '.') → CodeAt S.code s.pc code → Stacked S s →
    Env F (entriesIn tables) w s → Agrees S w s →
    Sim S n (Meaning.exprs call es) (EvaluatedAll S es.length (opCount code) s w) s w
  | [], _, _, s, w, h, _, _, hst, _, hag => by
    rw [Lower.arguments] at h
    cases h
    rw [Meaning.exprs]
    exact Sim.of_can (Meaning.can_pure _ _) ⟨rfl, rfl, rfl, le_rfl, ⟨rfl, fun _ _ => rfl⟩, hst, hag,
      rfl⟩
  | e :: es, i, _, s, w, h, hc, hcode, hst, henv, hag => by
    obtain ⟨c, rest, he, hes, rfl⟩ := Lower.arguments_cons h
    rw [argumentsCallees, List.forall_mem_append] at hc
    simp only [codeAt_append, opCount_append, Machine.opCount_remark, Machine.opCount_nil] at hcode
    obtain ⟨⟨-, hc'⟩, hrest⟩ := hcode
    rw [Meaning.exprs]
    refine Sim.bind (sim_expr he hc.1 hc' hst henv hag) fun v w₁ s₁ h₁ => ?_
    have hpc₁ := h₁.pc
    have henv₁ := h₁.env hground.site hground.frame hvisible hst henv
    refine Sim.bind (sim_exprs hes hc.2 (hrest.at (by omega)) h₁.pushed.stacked henv₁ h₁.agrees)
      fun vs w₂ s₂ h₂ => ?_
    have hbelow := h₁.pushed.below hground.site hst
    have hpc₂ := h₂.pc
    have hbelow₂ := h₂.below
    refine Sim.of_can (Meaning.can_pure _ _) ⟨congrArg (· + 1) h₂.count, ?_, ?_, by omega, ?_,
      h₂.stacked, h₂.agrees, h₂.locals.trans h₁.locals⟩
    · simp only [opCount_append, Machine.opCount_remark, Machine.opCount_nil]
      omega
    · have htop : s₂.cell (s₁.reg Register.sp) = v := by
        rw [h₂.undisturbed.keeps _ le_rfl, h₁.pushed.top]
      have hstack := Stacks.concat htop h₂.stack
      rw [h₁.pushed.sp, Int32.sub_add_cancel] at hstack
      rw [List.reverse_cons]
      exact hstack
    · exact h₁.pushed.undisturbed.trans h₂.undisturbed (by omega)

end

end

end RvBackend.Simulation
