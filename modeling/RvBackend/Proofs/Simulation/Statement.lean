import RvBackend.Proofs.Simulation.Scope

/-! # Statements

The code of a statement does what the statement means and leaves the stack as it was. It ends behind
its last instruction, or at the exit of the function if the statement returns.

* `Sim.serve`: calls of the helpers.
* `sim_repeated`: loops, from what one round does.
* `sim_stmt`: the code of a statement shows what it comes to. -/

namespace RvBackend.Simulation

open Asm (Register Line)
open Machine (State CodeAt Fetched opCount codeAt_append opCount_append)
open Meaning (Evaluation World Can)

variable {α β : Type} {S : Site} {m n : ℕ} {x : Evaluation α} {f : α → Evaluation β}
  {Q : α → World → State → Prop} {T : β → World → State → Prop}
  {w w' : World} {s s' s'' : State} {F : Frame} {es : List Entry}

/-! ### Helpers -/

/-- A call of a helper. -/
theorem Sim.serve {abi : Abi} {globals : Scopes} {ρs : List Register} {helper : String}
    {argument : Evaluation Int32} (hbase : Base S abi globals ρs)
    (hhelper : helper = abi.printHelper ∨ helper = abi.readHelper)
    (hjal : Fetched S.code s.pc "jal" [Lower.ra, .label helper])
    (hcan : Can argument w (.ok (s.reg Register.a0)) w) (hag : Agrees S w s) :
    Sim S n (Meaning.serve abi helper argument) (Returned S s w) s w := by
  rw [Meaning.serve]
  by_cases hprint : helper = abi.printHelper
  · rw [if_pos hprint]
    rw [hprint, ← hbase.printHelper] at hjal
    rcases hwrite : s.output.write (Text.decimal (s.reg Register.a0).toInt ++ "\n") with ⟨output,
      fits⟩
    have hprinted := Meaning.can_printInteger (hag.output ▸ hwrite)
    cases fits with
    | false =>
      refine Sim.stop (hcan.bind (Can.bind_error hprinted)) ?_
      exact .trap rfl (Machine.traps_print ofName?_ra hjal hwrite) rfl hag.input rfl
    | true =>
      refine Sim.step (Machine.advances_print ofName?_ra hjal hwrite) fun _ => ?_
      refine Sim.of_can (hcan.bind (hprinted.bind (Meaning.can_pure _ _)))
        ⟨by simp, ?_, ?_, ⟨?_, ?_⟩, ?_, rfl⟩
      · rw [State.reg_next, State.reg_setReg_of_ne _ _ (by decide)]
        rfl
      · rw [State.reg_next, State.reg_setReg_of_ne _ _ (by decide)]
        rfl
      · rw [State.reg_next, State.reg_setReg_of_ne _ _ (by decide)]
        rfl
      · intro b _
        rw [State.cell_next, State.cell_setReg]
        rfl
      · refine ⟨by simpa using hag.input, by simp, fun hname => ?_⟩
        rw [State.cell_next, State.cell_setReg]
        exact hag.globals hname
  · rw [if_neg hprint]
    obtain rfl := hhelper.resolve_left hprint
    rw [← hbase.readHelper] at hjal
    rw [← hbase.readHelper, ← hbase.printHelper] at hprint
    rcases hread : s.input.nextInteger with ⟨read, input⟩
    have hinteger := Meaning.can_readInteger (hag.input ▸ hread)
    cases read with
    | error fault =>
      refine Sim.stop hinteger ?_
      exact .trap rfl (Machine.traps_read ofName?_ra hjal hprint hread) rfl rfl hag.output
    | ok v =>
      refine Sim.step (Machine.advances_read ofName?_ra hjal hprint hread) fun _ => ?_
      refine Sim.of_can hinteger ⟨by simp, ?_, ?_, ⟨?_, ?_⟩, ?_, rfl⟩
      · rw [State.reg_next, State.reg_setReg_of_ne _ _ (by decide),
          State.reg_setReg_self _ _ (by decide)]
      · rw [State.reg_next, State.reg_setReg_of_ne _ _ (by decide),
          State.reg_setReg_of_ne _ _ (by decide)]
        rfl
      · rw [State.reg_next, State.reg_setReg_of_ne _ _ (by decide),
          State.reg_setReg_of_ne _ _ (by decide)]
        rfl
      · intro b _
        rw [State.cell_next, State.cell_setReg, State.cell_setReg]
        rfl
      · refine ⟨by simp, by simpa using hag.output, fun hname => ?_⟩
        rw [State.cell_next, State.cell_setReg, State.cell_setReg]
        exact hag.globals hname

/-! ### Loops -/

/-- A test has been made: the code goes on inside the loop or behind it. -/
structure Tested (S : Site) (F : Frame) (es : List Entry) (inside stop : ℕ) (s : State) (b : Bool)
    (w' : World) (s' : State) : Prop where
  ready : Ready S F es w' s'
  keeps : Keeps (F.fp.toInt - 8) s s'
  pc : s'.pc = if b then inside else stop

/-- **Loops**: from a test and a body, each round of which goes back to the test, to the loop. The
induction is on the fuel; the jump back is the step that pays for it. -/
theorem sim_repeated {test : Evaluation Bool} {body : Evaluation (Option Int32)}
    (again inside back : ℕ) {stop : ℕ}
    (htest : ∀ {w : World} {s : State}, s.pc = again → Ready S F es w s →
      Sim S n test (Tested S F es inside stop s) s w)
    (hbody : ∀ {w : World} {s : State}, s.pc = inside → Ready S F es w s →
      Sim S n body (Done S F es back s) s w)
    (hback : ∀ {s : State}, s.pc = back →
      Machine.Advances S.names S.code s { s with pc := again }) :
    ∀ {k : ℕ} {w : World} {s : State}, k ≤ n → s.pc = again → Ready S F es w s →
      Sim S k (Meaning.repeated test body k) (Done S F es stop s) s w
  | 0, _, _, _, _, hready =>
    Sim.stop (Meaning.can_throw _ _)
      (.fuel (Nat.zero_le _) hready.agrees.input hready.agrees.output)
  | k + 1, w, s, hk, hpc, hready => by
    rw [Meaning.repeated]
    refine Sim.bind ((htest hpc hready).antitone hk) fun b w₁ s₁ h₁ => ?_
    cases b with
    | false => exact Sim.of_can (Meaning.can_pure _ _) ⟨h₁.ready, h₁.keeps, h₁.pc⟩
    | true =>
      refine Sim.bind ((hbody h₁.pc h₁.ready).antitone hk) fun r w₂ s₂ h₂ => ?_
      cases r with
      | some v => exact Sim.of_can (Meaning.can_pure _ _) (h₂.since h₁.keeps).returned
      | none =>
        refine Sim.jump (hback h₂.ends) fun s₃ hpc₃ hstill => ?_
        have hready₃ := h₂.ready.still hstill ⟨List.not_mem_nil, List.not_mem_nil⟩
        have hkeeps := (h₁.keeps.trans h₂.keeps le_rfl).trans (hstill.keeps _) le_rfl
        exact (sim_repeated again inside back htest hbody hback (Nat.le_of_succ_le hk) hpc₃
          hready₃).conseq fun r w' s' h => h.since hkeeps

/-! ### Values and variables -/

/-- The address of what a name stands for is below the words that a frame keeps of its caller. -/
theorem Meant.below {name : String} {e : Entry} {a : Int32} (h : Meant S F es w s name e a)
    (hS : S.Valid) (hF : F.Valid S) : a.toInt < F.fp.toInt - 8 := by
  have hroom := hF.room
  have hfloor := hF.floor
  cases h with
  | frame _ hframe _ _ =>
    have hhigh := hframe.high
    rw [toInt_address hS hF hframe]
    omega
  | data _ _ _ hlabel =>
    have hlow := hS.low hlabel
    omega

/-- The code of a block, wherever it stands and whatever is visible there, shows what the block
comes to. -/
def BlockShown (S : Site) (F : Frame) (ctx : Lower.Context) (globals : Scopes) (n : ℕ)
    (call : String → List Int32 → Evaluation Int32) (b : Option Block) : Prop :=
  ∀ {tables : Scopes} {code : List Line} {p q : Lower.Progress} {w : World} {s : State},
    Made (Lower.optionalBlock ctx (tables ++ globals) b) p code q →
    Fits F ctx.abi (blockEntries b) (blockCallees b) p.cursor → Laid F p.cursor (entriesIn tables) →
    CodeAt S.code s.pc code → Ready S F (entriesIn tables) w s →
    Sim S n (Meaning.optionalBlock ctx.abi call n b)
    (Done S F (entriesIn tables) (s.pc + opCount code) s) s w

section

variable {ctx : Lower.Context} {tables globals : Scopes} {ρs : List Register}
  {call : String → List Int32 → Evaluation Int32} (hground : Ground S F ctx globals ρs n call)
  (hvisible : Visible F (entriesIn tables))

include hground hvisible

/-- An expression is evaluated into a register. -/
theorem Sim.value {f : Int32 → Evaluation β} {r : String} {ρ : Register} {e : Expr}
    {code : List Line} (hr : Register.ofName? r = some ρ) (hρ : ρ ∉ [0, Register.sp, Register.s0])
    (h : Lower.expression ctx.abi (tables ++ globals) e = .ok code)
    (hc : ∀ c ∈ e.callees, c.toList.head? ≠ some '.') (hcode : CodeAt S.code s.pc code)
    (hpop : CodeAt S.code (s.pc + opCount code) (Lower.pop (.reg r)))
    (hready : Ready S F (entriesIn tables) w s)
    (hnext : ∀ v w' s', s'.pc = s.pc + opCount code + 2 → s'.reg ρ = v →
      Ready S F (entriesIn tables) w' s' → Keeps (F.fp.toInt - 8) s s' → Sim S n (f v) T s' w') :
    Sim S n (Meaning.expr call e >>= f) T s w := by
  have hst := hready.stacked hground.frame
  simp only [List.mem_cons, List.not_mem_nil, or_false, not_or] at hρ
  obtain ⟨hzero, hsp, hs0⟩ := hρ
  refine Sim.bind (sim_expr hground hvisible h hc hcode hst hready.env hready.agrees)
    fun v w₁ s₁ h₁ => ?_
  refine Sim.pop hr hsp (fun hz => hzero (Fin.ext hz)) (hpop.at h₁.pc) h₁.pushed.stacked.aligned
    fun s₂ hpc₂ hpop₂ => ?_
  have hund : Undisturbed (s.reg Register.sp).toInt s s₂ :=
    h₁.pushed.undisturbed.trans (hpop₂.still.undisturbed (by simp [Ne.symm hs0]; decide) _) le_rfl
  refine hnext v w₁ s₂ (by rw [hpc₂, h₁.pc]) (by rw [hpop₂.reg, h₁.pushed.top]) ?_
    (hready.keeps hground.frame hund)
  exact hready.undisturbed hground.site hground.frame hvisible hund (hpop₂.sp_of_pushed h₁.pushed)
    (hpop₂.still.agrees h₁.agrees) h₁.locals

/-- The word of a register is assigned to a variable whose address is in `t0`. -/
theorem Sim.store {f : Unit → Evaluation β} {r : String} {ρ : Register} {name : String} {e : Entry}
    {a : Int32} (hr : Register.ofName? r = some ρ)
    (hmeant : Meant S F (entriesIn tables) w s name e a) (ht0 : s.reg Register.t0 = a)
    (hsw : Fetched S.code s.pc "sw" [.reg r, .mem 0 "t0"])
    (hready : Ready S F (entriesIn tables) w s)
    (hnext : ∀ s', s'.pc = s.pc + 1 → Ready S F (entriesIn tables) (w.write name (s.reg ρ)) s' →
      Keeps (F.fp.toInt - 8) s s' → Sim S n (f ()) T s' (w.write name (s.reg ρ))) :
    Sim S n (Meaning.writeVariable name (s.reg ρ) >>= f) T s w := by
  refine Sim.poke (Machine.advances_sw hr ofName?_t0 hsw (add_offset_zero ht0)
    (hmeant.aligned hground.site hground.frame)) fun s' hpc hpoked => ?_
  obtain ⟨henv, hag⟩ :=
    hmeant.write hground.site hground.frame hvisible hready.env hready.agrees hpoked
  refine Sim.after (Meaning.can_writeVariable name _ w) (hnext s' hpc ⟨henv, ?_, hag⟩ ?_)
  · rw [hpoked.regs]
    exact hready.sp
  · exact hpoked.keeps (hmeant.below hground.site hground.frame)

/-- The word of a variable, whose address is put into `t0`, is loaded into a register. -/
theorem Sim.loadVariable {f : Int32 → Evaluation β} {r : String} {ρ : Register} {loc : Location}
    {name : String} {e : Entry} (hr : Register.ofName? r = some ρ)
    (hρ : ρ = Register.t0 ∨ ρ = Register.t1)
    (h : Lower.resolve (tables ++ globals) loc name = .ok e)
    (haddr : CodeAt S.code s.pc (Lower.loadAddress Lower.t0 e))
    (hlw : Fetched S.code (s.pc + 1) "lw" [.reg r, .mem 0 "t0"])
    (hready : Ready S F (entriesIn tables) w s)
    (hnext : ∀ a s', s'.pc = s.pc + 2 → Meant S F (entriesIn tables) w s' name e a →
      s'.reg ρ = s'.cell a → (ρ ≠ Register.t0 → s'.reg Register.t0 = a) →
      Ready S F (entriesIn tables) w s' → Keeps (F.fp.toInt - 8) s s' →
      Sim S n (f (s'.cell a)) T s' w) :
    Sim S n (Meaning.readVariable name >>= f) T s w := by
  obtain ⟨a, hmeant⟩ := hready.env.resolve hvisible rfl hground.known h
  have hzero : ρ.val ≠ 0 := by rcases hρ with rfl | rfl <;> decide
  refine Sim.loadAddress hmeant hready.env.s0 haddr fun s₁ hpc₁ hreg₁ hstill₁ => ?_
  refine Sim.set (Machine.advances_lw hr ofName?_t0 (hlw.at hpc₁) (add_offset_zero hreg₁)
    (hmeant.aligned hground.site hground.frame)) hzero fun s₂ hpc₂ hreg₂ hstill₂ _ => ?_
  have hboth := hstill₁.trans hstill₂
  have hready₂ := hready.still hboth (by rcases hρ with rfl | rfl <;> decide)
  obtain ⟨a', hmeant₂⟩ := hready₂.env.resolve hvisible rfl hground.known h
  obtain rfl := hmeant.unique hmeant₂
  refine Sim.after (hmeant₂.read hready₂.agrees)
    (hnext a s₂ (by omega) hmeant₂ ?_ ?_ hready₂ (hboth.keeps _))
  · rw [hreg₂, hstill₂.cells]
  · intro hne
    rw [hstill₂.regs _ (by simpa using hne.symm), hreg₁]

/-! ### Statements without parts -/

theorem sim_print {loc : Location} {target : Expr} {code : List Line} {p q : Lower.Progress}
    (h : Made (Lower.statement ctx (tables ++ globals) (.print loc target)) p code q)
    (hc : ∀ c ∈ target.callees, c.toList.head? ≠ some '.') (hcode : CodeAt S.code s.pc code)
    (hready : Ready S F (entriesIn tables) w s) :
    Sim S n (Meaning.stmt ctx.abi call n (.print loc target))
      (Done S F (entriesIn tables) (s.pc + opCount code) s) s w := by
  obtain ⟨c, htarget, -, rfl⟩ := Lower.made_print h
  simp only [codeAt_append, opCount_append, Machine.opCount_remark, Machine.opCount_nil,
    Machine.opCount_pop, Machine.opCount_op, Nat.zero_add] at hcode ⊢
  obtain ⟨⟨⟨-, hc'⟩, hpop⟩, hjal, -⟩ := hcode
  rw [Meaning.stmt]
  refine Sim.value hground hvisible ofName?_a0 (by decide) htarget hc hc' hpop hready
    fun v w₁ s₁ hpc₁ hreg₁ hready₁ hkeeps₁ => ?_
  have hcan : Can (pure v) w₁ (.ok (s₁.reg Register.a0)) w₁ := by
    rw [hreg₁]
    exact Meaning.can_pure v w₁
  refine Sim.bind (Sim.serve hground.toBase (.inl rfl) (hjal.at (by omega)) hcan hready₁.agrees)
    fun v' w₂ s₂ h₂ => Sim.of_can (Meaning.can_pure _ _) ⟨?_, ?_, ?_⟩
  · exact hready₁.undisturbed hground.site hground.frame hvisible h₂.undisturbed h₂.sp h₂.agrees
      h₂.locals
  · exact hkeeps₁.trans (hready₁.keeps hground.frame h₂.undisturbed) le_rfl
  · have hpc₂ := h₂.pc
    show s₂.pc = _
    omega

theorem sim_read {loc : Location} {target : Reference} {code : List Line} {p q : Lower.Progress}
    (h : Made (Lower.statement ctx (tables ++ globals) (.read loc target)) p code q)
    (hcode : CodeAt S.code s.pc code) (hready : Ready S F (entriesIn tables) w s) :
    Sim S n (Meaning.stmt ctx.abi call n (.read loc target))
      (Done S F (entriesIn tables) (s.pc + opCount code) s) s w := by
  obtain ⟨e, he, -, rfl⟩ := Lower.made_read h
  have hst := hready.stacked hground.frame
  obtain ⟨a, hmeant⟩ := hready.env.resolve hvisible rfl hground.known he
  simp only [codeAt_append, opCount_append, opCount_loadAddress, Machine.opCount_remark,
    Machine.opCount_nil, Machine.opCount_push, Machine.opCount_pop, Machine.opCount_op,
    Nat.zero_add] at hcode ⊢
  obtain ⟨⟨⟨⟨⟨-, haddr⟩, hpush⟩, hjal, -⟩, hpop⟩, hsw, -⟩ := hcode
  rw [Meaning.stmt]
  refine Sim.loadAddress hmeant hready.env.s0 haddr fun s₁ hpc₁ hreg₁ hstill₁ => ?_
  have hsp₁ : s₁.reg Register.sp = s.reg Register.sp := hstill₁.regs _ (by decide)
  refine Sim.push ofName?_t0 (by decide) hground.site (hpush.at (by omega)) (hst.of_sp hsp₁)
    (hstill₁.agrees hready.agrees) fun s₂ hpc₂ hpushed hag₂ => ?_
  refine Sim.bind
    (Sim.serve hground.toBase (.inr rfl) (hjal.at (by omega)) (Meaning.can_guess _ w) hag₂)
    fun v w₃ s₃ h₃ => ?_
  have hpc₃ := h₃.pc
  refine Sim.pop ofName?_t0 (by decide) (by decide) (hpop.at (by omega))
    (by rw [h₃.sp]; exact hpushed.stacked.aligned) fun s₄ hpc₄ hpop₄ => ?_
  have hsp₄ : s₄.reg Register.sp = s.reg Register.sp := by
    rw [hpop₄.sp, h₃.sp, hpushed.sp, Int32.sub_add_cancel, hsp₁]
  have ht0 : s₄.reg Register.t0 = a := by
    rw [hpop₄.reg, h₃.sp, h₃.undisturbed.keeps _ le_rfl, hpushed.top, hreg₁]
  have ha0 : s₄.reg Register.a0 = v := by rw [hpop₄.still.regs _ (by decide), h₃.a0]
  have hbelow := hpushed.below hground.site (hst.of_sp hsp₁)
  have hund : Undisturbed (s.reg Register.sp).toInt s s₄ :=
    (((hstill₁.undisturbed (by decide) _).trans hpushed.undisturbed (by rw [hsp₁])).trans
      h₃.undisturbed (by rw [hsp₁] at hbelow; omega)).trans (hpop₄.still.undisturbed (by decide) _)
      le_rfl
  have hready₄ := hready.undisturbed hground.site hground.frame hvisible hund hsp₄
    (hpop₄.still.agrees h₃.agrees) h₃.locals
  obtain ⟨a', hmeant₄⟩ := hready₄.env.resolve hvisible rfl hground.known he
  obtain rfl := hmeant.unique hmeant₄
  rw [← ha0]
  refine Sim.store hground hvisible ofName?_a0 hmeant₄ ht0 (hsw.at (by omega)) hready₄
    fun s₅ hpc₅ hready₅ hkeeps₅ => Sim.of_can (Meaning.can_pure _ _) ⟨hready₅, ?_, ?_⟩
  · exact (hready.keeps hground.frame hund).trans hkeeps₅ le_rfl
  · show s₅.pc = _
    omega

theorem sim_assign {loc : Location} {target : Reference} {value : Expr} {code : List Line}
    {p q : Lower.Progress}
    (h : Made (Lower.statement ctx (tables ++ globals) (.assign loc target value)) p code q)
    (hc : ∀ c ∈ value.callees, c.toList.head? ≠ some '.') (hcode : CodeAt S.code s.pc code)
    (hready : Ready S F (entriesIn tables) w s) :
    Sim S n (Meaning.stmt ctx.abi call n (.assign loc target value))
      (Done S F (entriesIn tables) (s.pc + opCount code) s) s w := by
  obtain ⟨e, c, he, hvalue, -, rfl⟩ := Lower.made_assign h
  have hst := hready.stacked hground.frame
  obtain ⟨a, hmeant⟩ := hready.env.resolve hvisible rfl hground.known he
  simp only [codeAt_append, opCount_append, opCount_loadAddress, Machine.opCount_remark,
    Machine.opCount_nil, Machine.opCount_push, Machine.opCount_pop, Machine.opCount_op,
    Nat.zero_add] at hcode ⊢
  obtain ⟨⟨⟨⟨⟨⟨-, haddr⟩, hpush⟩, hc'⟩, hpop1⟩, hpop0⟩, hsw, -⟩ := hcode
  rw [Meaning.stmt]
  refine Sim.loadAddress hmeant hready.env.s0 haddr fun s₁ hpc₁ hreg₁ hstill₁ => ?_
  have hsp₁ : s₁.reg Register.sp = s.reg Register.sp := hstill₁.regs _ (by decide)
  refine Sim.push ofName?_t0 (by decide) hground.site (hpush.at (by omega)) (hst.of_sp hsp₁)
    (hstill₁.agrees hready.agrees) fun s₂ hpc₂ hpushed hag₂ => ?_
  have hbelow := hpushed.below hground.site (hst.of_sp hsp₁)
  rw [hsp₁] at hbelow
  have hund₂ : Undisturbed (s.reg Register.sp).toInt s s₂ :=
    (hstill₁.undisturbed (by decide) _).trans hpushed.undisturbed (by rw [hsp₁])
  have henv₂ : Env F (entriesIn tables) w s₂ := by
    have hsp := hready.sp
    exact hready.env.undisturbed hground.site hground.frame hvisible hund₂ (by omega) rfl
  refine Sim.bind
    (sim_expr hground hvisible hvalue hc (hc'.at (by omega)) hpushed.stacked henv₂ hag₂)
    fun v w₃ s₃ h₃ => ?_
  have hpc₃ := h₃.pc
  refine Sim.pop ofName?_t1 (by decide) (by decide) (hpop1.at (by omega)) h₃.pushed.stacked.aligned
    fun s₄ hpc₄ hpop₄ => ?_
  have hsp₄ := hpop₄.sp_of_pushed h₃.pushed
  refine Sim.pop ofName?_t0 (by decide) (by decide) (hpop0.at (by omega))
    (by rw [hsp₄]; exact hpushed.stacked.aligned) fun s₅ hpc₅ hpop₅ => ?_
  have hsp₅ : s₅.reg Register.sp = s.reg Register.sp := by
    rw [hpop₅.sp, hsp₄, hpushed.sp, Int32.sub_add_cancel, hsp₁]
  have ht1 : s₅.reg Register.t1 = v := by
    rw [hpop₅.still.regs _ (by decide), hpop₄.reg, h₃.pushed.top]
  have ht0 : s₅.reg Register.t0 = a := by
    rw [hpop₅.reg, hsp₄, hpop₄.still.cells, h₃.pushed.undisturbed.keeps _ le_rfl, hpushed.top,
      hreg₁]
  have hpops := hpop₄.still.trans hpop₅.still
  have hund : Undisturbed (s.reg Register.sp).toInt s s₅ :=
    (hund₂.trans h₃.pushed.undisturbed (by omega)).trans (hpops.undisturbed (by decide) _) le_rfl
  have hready₅ :=
    hready.undisturbed hground.site hground.frame hvisible hund hsp₅ (hpops.agrees h₃.agrees)
      h₃.locals
  obtain ⟨a', hmeant₅⟩ := hready₅.env.resolve hvisible rfl hground.known he
  obtain rfl := hmeant.unique hmeant₅
  rw [← ht1]
  refine Sim.store hground hvisible ofName?_t1 hmeant₅ ht0 (hsw.at (by omega)) hready₅
    fun s₆ hpc₆ hready₆ hkeeps₆ => Sim.of_can (Meaning.can_pure _ _) ⟨hready₆, ?_, ?_⟩
  · exact (hready.keeps hground.frame hund).trans hkeeps₆ le_rfl
  · show s₆.pc = _
    omega

theorem sim_ret {loc : Location} {value : Expr} {code : List Line} {p q : Lower.Progress} {stop : ℕ}
    (h : Made (Lower.statement ctx (tables ++ globals) (.ret loc value)) p code q)
    (hc : ∀ c ∈ value.callees, c.toList.head? ≠ some '.') (hcode : CodeAt S.code s.pc code)
    (hready : Ready S F (entriesIn tables) w s) :
    Sim S n (Meaning.stmt ctx.abi call n (.ret loc value)) (Done S F (entriesIn tables) stop s) s
      w := by
  obtain ⟨c, hvalue, -, rfl⟩ := Lower.made_ret h
  simp only [codeAt_append, opCount_append, Machine.opCount_remark, Machine.opCount_nil,
    Machine.opCount_pop, Nat.zero_add] at hcode
  obtain ⟨⟨⟨-, hc'⟩, hpop⟩, hj, -⟩ := hcode
  rw [Meaning.stmt]
  refine Sim.value hground hvisible ofName?_a0 (by decide) hvalue hc hc' hpop hready
    fun v w₁ s₁ hpc₁ hreg₁ hready₁ hkeeps₁ => ?_
  refine Sim.goTo (Machine.advances_j (hj.at (by omega)) hground.exit) fun s₂ hpc₂ hstill => ?_
  refine Sim.of_can (Meaning.can_pure _ _) ⟨hready₁.still hstill (by decide), ?_, hpc₂, ?_⟩
  · exact hkeeps₁.trans (hstill.keeps _) le_rfl
  · rw [hstill.regs _ (by decide), hreg₁]

theorem sim_call {loc : Location} {callee : String} {args : List Expr} {code : List Line}
    {p q : Lower.Progress}
    (h : Made (Lower.statement ctx (tables ++ globals) (.call loc callee args)) p code q)
    (hc : ∀ c ∈ callee :: argumentsCallees args, c.toList.head? ≠ some '.')
    (hcode : CodeAt S.code s.pc code) (hready : Ready S F (entriesIn tables) w s) :
    Sim S n (Meaning.stmt ctx.abi call n (.call loc callee args))
      (Done S F (entriesIn tables) (s.pc + opCount code) s) s w := by
  obtain ⟨c, hcall, -, rfl⟩ := Lower.made_call h
  have hst := hready.stacked hground.frame
  have hstmt : Meaning.stmt ctx.abi call n (.call loc callee args) =
      Meaning.expr call (.call loc callee args) >>= fun _ => pure none := by
    rw [Meaning.stmt, Meaning.expr, bind_assoc]
  rw [codeAt_append] at hcode
  obtain ⟨hc', haddi, -⟩ := hcode
  rw [hstmt]
  refine Sim.bind (sim_expr hground hvisible hcall hc hc' hst hready.env hready.agrees)
    fun v w₁ s₁ h₁ => ?_
  have hpc₁ := h₁.pc
  refine Sim.set (Machine.advances_addi ofName?_sp ofName?_sp (haddi.at hpc₁)) (by decide)
    fun s₂ hpc₂ hreg₂ hstill _ => ?_
  have hsp₂ : s₂.reg Register.sp = s.reg Register.sp := by
    rw [hreg₂, h₁.pushed.sp]
    exact Int32.sub_add_cancel _ 4
  have hund : Undisturbed (s.reg Register.sp).toInt s s₂ :=
    h₁.pushed.undisturbed.trans (hstill.undisturbed (by decide) _) le_rfl
  refine Sim.of_can (Meaning.can_pure _ _) ⟨?_, hready.keeps hground.frame hund, ?_⟩
  · exact hready.undisturbed hground.site hground.frame hvisible hund hsp₂ (hstill.agrees h₁.agrees)
      h₁.locals
  · show s₂.pc = _
    rw [opCount_append, Machine.opCount_discard]
    omega

/-- The condition of a branch or a loop: code that goes to a label if the condition fails. -/
theorem sim_test {f : Int32 → Evaluation β} {condition : Expr} {code : List Line} {label : String}
    {target : ℕ} (h : Lower.expression ctx.abi (tables ++ globals) condition = .ok code)
    (hc : ∀ c ∈ condition.callees, c.toList.head? ≠ some '.')
    (hcode :
      CodeAt S.code s.pc (code ++ Lower.pop Lower.t0 ++ [.op "beqz" [Lower.t0, .label label]]))
    (hlabel : S.code.codeLabels.lookup label = some target)
    (hready : Ready S F (entriesIn tables) w s)
    (hnext : ∀ v w' s', s'.pc = (if v = 0 then target else s.pc + opCount code + 3) →
      Ready S F (entriesIn tables) w' s' → Keeps (F.fp.toInt - 8) s s' → Sim S n (f v) T s' w') :
    Sim S n (Meaning.expr call condition >>= f) T s w := by
  simp only [codeAt_append, opCount_append, Machine.opCount_pop] at hcode
  obtain ⟨⟨hc', hpop⟩, hbeqz, -⟩ := hcode
  refine Sim.value hground hvisible ofName?_t0 (by decide) h hc hc' hpop hready
    fun v w₁ s₁ hpc₁ hreg₁ hready₁ hkeeps₁ => ?_
  refine Sim.branch (Machine.advances_beqz ofName?_t0 (hbeqz.at (by omega)) hlabel)
    fun s₂ hpc₂ hstill => ?_
  rw [hreg₁, hpc₁] at hpc₂
  exact hnext v w₁ s₂ hpc₂ (hready₁.still hstill (by decide))
    (hkeeps₁.trans (hstill.keeps _) le_rfl)

omit hvisible in
theorem sim_branch {loc : Location} {condition : Expr} {yes no : Option Block} {code : List Line}
    {p q : Lower.Progress} (hyes : BlockShown S F ctx globals n call yes)
    (hno : BlockShown S F ctx globals n call no)
    (h : Made (Lower.statement ctx (tables ++ globals) (.branch loc condition yes no)) p code q)
    (hfits : Fits F ctx.abi (blockEntries yes ++ blockEntries no)
      (condition.callees ++ (blockCallees yes ++ blockCallees no)) p.cursor)
    (hlaid : Laid F p.cursor (entriesIn tables)) (hcode : CodeAt S.code s.pc code)
    (hready : Ready S F (entriesIn tables) w s) :
    Sim S n (Meaning.stmt ctx.abi call n (.branch loc condition yes no))
      (Done S F (entriesIn tables) (s.pc + opCount code) s) s w := by
  obtain ⟨test, yesCode, noCode, p', p'', htest, rfl, hyesMade, hnoMade, rfl⟩ := Lower.made_branch h
  have hblocks := hfits.of_callees
  have hyesFits := hblocks.left hground.valid
  have hnoFits := hblocks.right hground.valid hground.frame.small
  have hnoLaid := hlaid.lowered hground.valid hground.frame.small hyesFits
  rw [← (Lower.made_optionalBlock_gives hyesMade).of_relabel.cursor] at hnoFits hnoLaid
  rw [codeAt_append, codeAt_append, codeAt_append, codeAt_append] at hcode
  simp only [opCount_append, Machine.opCount_pop, Machine.opCount_op, Machine.opCount_label,
    Machine.opCount_nil] at hcode ⊢
  obtain ⟨⟨⟨⟨htestCode, hyesCode⟩, hj, hotherwise, -⟩, hnoCode⟩, hdone, -⟩ := hcode
  rw [Meaning.stmt]
  refine sim_test hground hlaid.toVisible htest
    (fun c hc => hfits.callees c (List.mem_append_left _ hc)) htestCode hotherwise hready
    fun v w₁ s₁ hpc₁ hready₁ hkeeps₁ => ?_
  by_cases hv : v = 0
  · rw [if_pos hv] at hpc₁ ⊢
    refine (hno hnoMade hnoFits hnoLaid (hnoCode.at (by omega)) hready₁).conseq fun r w₂ s₂ h₂ => ?_
    have hend : s₁.pc + opCount noCode =
        s.pc + (opCount test + 2 + (0 + 1) + opCount yesCode + (0 + 1) + opCount noCode + 0) := by
      omega
    rw [hend] at h₂
    exact h₂.since hkeeps₁
  · rw [if_neg hv] at hpc₁ ⊢
    refine Sim.andThen (hyes hyesMade hyesFits hlaid (hyesCode.at (by omega)) hready₁)
      fun r w₂ s₂ h₂ => ?_
    cases r with
    | some u => exact Sim.of_can (Meaning.can_pure _ _) (h₂.since hkeeps₁).returned
    | none =>
      have hpc₂ : s₂.pc = s₁.pc + opCount yesCode := h₂.ends
      refine Sim.goTo (Machine.advances_j (hj.at (by omega)) hdone) fun s₃ hpc₃ hstill => ?_
      refine Sim.of_can (Meaning.can_pure _ _) ⟨h₂.ready.still hstill (by decide), ?_, ?_⟩
      · exact (hkeeps₁.trans h₂.keeps le_rfl).trans (hstill.keeps _) le_rfl
      · show s₃.pc = _
        omega

omit hvisible in
theorem sim_loop {loc : Location} {condition : Expr} {body : Option Block} {code : List Line}
    {p q : Lower.Progress} (hbody : BlockShown S F ctx globals n call body)
    (h : Made (Lower.statement ctx (tables ++ globals) (.loop loc condition body)) p code q)
    (hfits : Fits F ctx.abi (blockEntries body) (condition.callees ++ blockCallees body) p.cursor)
    (hlaid : Laid F p.cursor (entriesIn tables)) (hcode : CodeAt S.code s.pc code)
    (hready : Ready S F (entriesIn tables) w s) :
    Sim S n (Meaning.stmt ctx.abi call n (.loop loc condition body))
      (Done S F (entriesIn tables) (s.pc + opCount code) s) s w := by
  obtain ⟨test, bodyCode, p', htest, rfl, hmade, rfl⟩ := Lower.made_loop h
  rw [codeAt_append, codeAt_append, codeAt_append] at hcode
  simp only [opCount_append, Machine.opCount_pop, Machine.opCount_op, Machine.opCount_label,
    Machine.opCount_nil] at hcode ⊢
  obtain ⟨⟨⟨⟨hagain, -⟩, htestCode⟩, hbodyCode⟩, hj, hdone, -⟩ := hcode
  rw [Meaning.stmt]
  refine sim_repeated s.pc (s.pc + opCount test + 3) (s.pc + opCount test + 3 + opCount bodyCode) ?_
    ?_ ?_ le_rfl rfl hready
  · intro w₁ s₁ hpc₁ hready₁
    refine sim_test hground hlaid.toVisible htest
      (fun c hc => hfits.callees c (List.mem_append_left _ hc)) (htestCode.at (by omega)) hdone
      hready₁ fun v w₂ s₂ hpc₂ hready₂ hkeeps₂ => ?_
    refine Sim.of_can (Meaning.can_pure _ _) ⟨hready₂, hkeeps₂, ?_⟩
    by_cases hv : v = 0
    · rw [if_pos hv] at hpc₂
      simp only [hv, bne_self_eq_false, Bool.false_eq_true, if_false]
      omega
    · rw [if_neg hv] at hpc₂
      simp only [bne_iff_ne, ne_eq, hv, not_false_eq_true, if_true]
      omega
  · intro w₁ s₁ hpc₁ hready₁
    have hshown := hbody hmade hfits.of_callees hlaid (hbodyCode.at (by omega)) hready₁
    rw [hpc₁] at hshown
    exact hshown
  · intro s₁ hpc₁
    exact Machine.advances_j (hj.at (by omega)) hagain

/-- A counting loop behind its scope: the first value, the test, and rounds that count. -/
theorem sim_countCode {loc : Location} {e : Entry} {var again done : String} {lo hi : Int64}
    {u v : Int32} {body : Evaluation (Option Int32)} {bodyCode : List Line}
    (hlo : Int32.ofInt lo.toInt = u) (hhi : Int32.ofInt hi.toInt = v)
    (he : Lower.resolve (tables ++ globals) loc var = .ok e)
    (hbody : ∀ {w : World} {s : State}, CodeAt S.code s.pc bodyCode →
      Ready S F (entriesIn tables) w s →
      Sim S n body (Done S F (entriesIn tables) (s.pc + opCount bodyCode) s) s w)
    (hcode : CodeAt S.code s.pc (Lower.countCode e var lo hi again done bodyCode))
    (hready : Ready S F (entriesIn tables) w s) :
    Sim S n (do
        Meaning.writeVariable var u
        Meaning.repeated (do return (← Meaning.readVariable var) != v) (Meaning.round var body) n)
      (Done S F (entriesIn tables)
        (s.pc + opCount (Lower.countCode e var lo hi again done bodyCode)) s) s w := by
  simp only [Lower.countCode, codeAt_append, opCount_append, opCount_loadAddress,
    Machine.opCount_remark, Machine.opCount_op, Machine.opCount_label,
    Machine.opCount_nil] at hcode ⊢
  obtain ⟨⟨⟨⟨⟨⟨⟨-, haddr₁⟩, hli, hsw, hagain, -⟩, haddr₂⟩, hlw₂, hli₂, hbeq, -⟩, hbodyCode⟩,
    haddr₃⟩, hlw₃, haddi, hsw₃, hj, hdone, -⟩ := hcode
  obtain ⟨a, hmeant⟩ := hready.env.resolve hvisible rfl hground.known he
  -- the first value
  refine Sim.loadAddress hmeant hready.env.s0 (haddr₁.at (by omega)) fun s₁ hpc₁ hreg₁ hstill₁ => ?_
  refine Sim.set (Machine.advances_li ofName?_t1 (hli.at (by omega))) (by decide)
    fun s₂ hpc₂ hreg₂ hstill₂ _ => ?_
  have hboth := hstill₁.trans hstill₂
  have hready₂ := hready.still hboth (by decide)
  obtain ⟨a', hmeant₂⟩ := hready₂.env.resolve hvisible rfl hground.known he
  obtain rfl := hmeant.unique hmeant₂
  rw [hlo] at hreg₂
  rw [← hreg₂]
  refine Sim.store hground hvisible ofName?_t1 hmeant₂ (by rw [hstill₂.regs _ (by decide), hreg₁])
    (hsw.at (by omega)) hready₂ fun s₃ hpc₃ hready₃ hkeeps₃ => ?_
  have hkeeps : Keeps (F.fp.toInt - 8) s s₃ := (hboth.keeps _).trans hkeeps₃ le_rfl
  refine (sim_repeated (s.pc + 3) (s.pc + 7) (s.pc + 7 + opCount bodyCode + 4) ?_ ?_ ?_ le_rfl
    (by omega) hready₃).conseq fun r w' s' h => h.since hkeeps
  · -- the test
    intro w₄ s₄ hpc₄ hready₄
    refine Sim.loadVariable hground hvisible ofName?_t0 (.inl rfl) he (haddr₂.at (by omega))
      (hlw₂.at (by omega)) hready₄ fun a s₅ hpc₅ _ hreg₅ _ hready₅ hkeeps₅ => ?_
    refine Sim.set (Machine.advances_li ofName?_t1 (hli₂.at (by omega))) (by decide)
      fun s₆ hpc₆ hreg₆ hstill₆ _ => ?_
    refine Sim.branch (Machine.advances_beq ofName?_t0 ofName?_t1 (hbeq.at (by omega)) hdone)
      fun s₇ hpc₇ hstill₇ => ?_
    have hstill := hstill₆.trans hstill₇
    refine Sim.of_can (Meaning.can_pure _ _) ⟨hready₅.still hstill (by decide),
      hkeeps₅.trans (hstill.keeps _) le_rfl, ?_⟩
    rw [hreg₆, hhi, hstill₆.regs _ (by decide), hreg₅] at hpc₇
    by_cases hv : s₅.cell a = v
    · rw [if_pos hv] at hpc₇
      simp only [hv, bne_self_eq_false, Bool.false_eq_true, if_false]
      omega
    · rw [if_neg hv] at hpc₇
      simp only [bne_iff_ne, ne_eq, hv, not_false_eq_true, if_true]
      omega
  · -- one round
    intro w₄ s₄ hpc₄ hready₄
    rw [Meaning.round]
    refine Sim.bind (hbody (hbodyCode.at (by omega)) hready₄) fun r w₅ s₅ h₅ => ?_
    cases r with
    | some u => exact Sim.of_can (Meaning.can_pure _ _) h₅.returned
    | none =>
      have hpc₅ : s₅.pc = s₄.pc + opCount bodyCode := h₅.ends
      refine Sim.loadVariable hground hvisible ofName?_t1 (.inr rfl) he (haddr₃.at (by omega))
        (hlw₃.at (by omega)) h₅.ready fun a s₆ hpc₆ hmeant₆ hreg₆ ht0 hready₆ hkeeps₆ => ?_
      refine Sim.set (Machine.advances_addi ofName?_t1 ofName?_t1 (haddi.at (by omega))) (by decide)
        fun s₇ hpc₇ hreg₇ hstill₇ _ => ?_
      have hready₇ := hready₆.still hstill₇ (by decide)
      obtain ⟨a', hmeant₇⟩ := hready₇.env.resolve hvisible rfl hground.known he
      obtain rfl := hmeant₆.unique hmeant₇
      have hnext : s₆.cell a + 1 = s₇.reg Register.t1 := by
        rw [hreg₇, hreg₆]
        rfl
      rw [hnext]
      refine Sim.store hground hvisible ofName?_t1 hmeant₇
        (by rw [hstill₇.regs _ (by decide), ht0 (by decide)]) (hsw₃.at (by omega)) hready₇
        fun s₈ hpc₈ hready₈ hkeeps₈ => Sim.of_can (Meaning.can_pure _ _) ⟨hready₈, ?_, ?_⟩
      · exact ((h₅.keeps.trans hkeeps₆ le_rfl).trans (hstill₇.keeps _) le_rfl).trans hkeeps₈ le_rfl
      · show s₈.pc = _
        omega
  · intro s₄ hpc₄
    refine Machine.advances_j (hj.at (by omega)) (hagain.trans ?_)
    congr 1

omit hvisible in
theorem sim_count {loc : Location} {scope : Option Table} {var : String} {lower upper : Expr}
    {body : Option Block} {code : List Line} {p q : Lower.Progress}
    (hbody : BlockShown S F ctx globals n call body)
    (h : Made (Lower.statement ctx (tables ++ globals) (.count loc scope var lower upper body)) p
      code q)
    (hfits : Fits F ctx.abi (Table.entriesOf scope ++ blockEntries body) ([] ++ blockCallees body)
      p.cursor)
    (hlaid : Laid F p.cursor (entriesIn tables)) (hcode : CodeAt S.code s.pc code)
    (hready : Ready S F (entriesIn tables) w s) :
    Sim S n (Meaning.stmt ctx.abi call n (.count loc scope var lower upper body))
      (Done S F (entriesIn tables) (s.pc + opCount code) s) s w := by
  obtain ⟨lo, hi, scope', fill, e, bodyCode, p', p'', hbounds, hscope, he, rfl, hmade, rfl⟩ :=
    Lower.made_count h
  obtain ⟨c, c', rfl, rfl, hlo, hhi, -⟩ := Lower.boundValues_eq_ok hbounds
  have hlo' : Int32.ofInt lo.toInt = Int32.ofInt c.value := by rw [(Lower.toInt_immediate hlo).1]
  have hhi' : Int32.ofInt hi.toInt = Int32.ofInt c'.value := by rw [(Lower.toInt_immediate hhi).1]
  have hbodyFits := hfits.right hground.valid hground.frame.small
  rw [← (Lower.made_install_gives hscope).cursor] at hbodyFits
  rw [enter_append] at he hmade
  rw [codeAt_append] at hcode
  rw [Meaning.stmt]
  refine Sim.within hground hscope (hfits.left hground.valid) hlaid hcode.1 hready
    fun w₁ s₁ hpc₁ hlaid₁ hready₁ => ?_
  refine Sim.after (Meaning.can_pure _ _) (Sim.after (Meaning.can_pure _ _) ?_)
  have hshown := sim_countCode hground hlaid₁.toVisible hlo' hhi' he
    (fun hcode hready => hbody hmade hbodyFits hlaid₁ hcode hready) (hcode.2.at hpc₁) hready₁
  have hend : s.pc +
      opCount (fill ++ Lower.countCode e var lo hi (".L" ++ Text.decimal (p'.labels + 1))
        (".L" ++ Text.decimal ((p'.labels + 1 : ℕ) + 1)) bodyCode) =
      s₁.pc + opCount (Lower.countCode e var lo hi (".L" ++ Text.decimal (p'.labels + 1))
        (".L" ++ Text.decimal ((p'.labels + 1 : ℕ) + 1)) bodyCode) := by
    rw [opCount_append, hpc₁, Nat.add_assoc]
  rw [hend]
  exact hshown

end

/-! ### Statements -/

section

variable {ctx : Lower.Context} {globals : Scopes} {ρs : List Register}
  {call : String → List Int32 → Evaluation Int32}

mutual

/-- **Statements**: the code of a statement shows what the statement comes to. -/
theorem sim_stmt (hground : Ground S F ctx globals ρs n call) : ∀ {st : Stmt} {tables : Scopes}
    {code : List Line} {p q : Lower.Progress} {w : World} {s : State},
    Made (Lower.statement ctx (tables ++ globals) st) p code q →
    Fits F ctx.abi st.entries st.callees p.cursor → Laid F p.cursor (entriesIn tables) →
    CodeAt S.code s.pc code → Ready S F (entriesIn tables) w s →
    Sim S n (Meaning.stmt ctx.abi call n st) (Done S F (entriesIn tables) (s.pc + opCount code) s) s
      w
  | .block b, _, _, _, _, _, _, h, hfits, hlaid, hcode, hready => by
    rw [Meaning.stmt]
    exact sim_block hground h hfits hlaid hcode hready
  | .print _ _, _, _, _, _, _, _, h, hfits, hlaid, hcode, hready =>
    sim_print hground hlaid.toVisible h hfits.callees hcode hready
  | .read _ _, _, _, _, _, _, _, h, _, hlaid, hcode, hready =>
    sim_read hground hlaid.toVisible h hcode hready
  | .assign _ _ _, _, _, _, _, _, _, h, hfits, hlaid, hcode, hready =>
    sim_assign hground hlaid.toVisible h hfits.callees hcode hready
  | .branch _ _ _ _, _, _, _, _, _, _, h, hfits, hlaid, hcode, hready =>
    sim_branch hground (sim_optionalBlock hground) (sim_optionalBlock hground) h hfits hlaid hcode
      hready
  | .loop _ _ _, _, _, _, _, _, _, h, hfits, hlaid, hcode, hready =>
    sim_loop hground (sim_optionalBlock hground) h hfits hlaid hcode hready
  | .count _ _ _ _ _ _, _, _, _, _, _, _, h, hfits, hlaid, hcode, hready =>
    sim_count hground (sim_optionalBlock hground) h hfits hlaid hcode hready
  | .ret _ _, _, _, _, _, _, _, h, hfits, hlaid, hcode, hready =>
    sim_ret hground hlaid.toVisible h hfits.callees hcode hready
  | .call _ _ _, _, _, _, _, _, _, h, hfits, hlaid, hcode, hready =>
    sim_call hground hlaid.toVisible h hfits.callees hcode hready

theorem sim_block (hground : Ground S F ctx globals ρs n call) : ∀ {b : Block} {tables : Scopes}
    {code : List Line} {p q : Lower.Progress} {w : World} {s : State},
    Made (Lower.block ctx (tables ++ globals) b) p code q →
    Fits F ctx.abi b.entries b.callees p.cursor → Laid F p.cursor (entriesIn tables) →
    CodeAt S.code s.pc code → Ready S F (entriesIn tables) w s →
    Sim S n (Meaning.block ctx.abi call n b) (Done S F (entriesIn tables) (s.pc + opCount code) s) s
      w
  | .mk _ scope _ body, _, _, p, _, _, s, h, hfits, hlaid, hcode, hready => by
    obtain ⟨scope', fill, bodyCode, p', hscope, hmade, rfl⟩ := Lower.made_block h
    have hparts : Fits F ctx.abi (Table.entriesOf scope ++ statementsEntries body)
        ([] ++ statementsCallees body) p.cursor := hfits
    have hbodyFits := hparts.right hground.valid hground.frame.small
    rw [← (Lower.made_install_gives hscope).cursor] at hbodyFits
    rw [enter_append] at hmade
    rw [codeAt_append] at hcode
    rw [Meaning.block]
    refine Sim.within hground hscope (hparts.left hground.valid) hlaid hcode.1 hready
      fun w₁ s₁ hpc₁ hlaid₁ hready₁ => ?_
    have hshown := sim_stmts hground hmade hbodyFits hlaid₁ (hcode.2.at hpc₁) hready₁
    rw [hpc₁, Nat.add_assoc, ← opCount_append] at hshown
    exact hshown

theorem sim_optionalBlock (hground : Ground S F ctx globals ρs n call) :
    ∀ {b : Option Block}, BlockShown S F ctx globals n call b
  | none, _, _, _, _, _, _, h, _, _, _, hready => by
    obtain ⟨rfl, -⟩ := made_pure_iff.mp h
    rw [Meaning.optionalBlock]
    exact Sim.of_can (Meaning.can_pure _ _) ⟨hready, fun _ _ => rfl, rfl⟩
  | some b, _, _, _, _, _, _, h, hfits, hlaid, hcode, hready => by
    rw [Meaning.optionalBlock]
    exact sim_block hground h hfits hlaid hcode hready

theorem sim_stmts (hground : Ground S F ctx globals ρs n call) :
    ∀ {ss : List Stmt} {tables : Scopes} {code : List Line} {p q : Lower.Progress} {w : World}
    {s : State},
    Made (Lower.statements ctx (tables ++ globals) ss) p code q →
    Fits F ctx.abi (statementsEntries ss) (statementsCallees ss) p.cursor →
    Laid F p.cursor (entriesIn tables) →
    CodeAt S.code s.pc code → Ready S F (entriesIn tables) w s →
    Sim S n (Meaning.stmts ctx.abi call n ss) (Done S F (entriesIn tables) (s.pc + opCount code) s)
      s w
  | [], _, _, _, _, _, _, h, _, _, _, hready => by
    obtain ⟨rfl, -⟩ := made_pure_iff.mp h
    rw [Meaning.stmts]
    exact Sim.of_can (Meaning.can_pure _ _) ⟨hready, fun _ _ => rfl, rfl⟩
  | st :: ss, _, _, p, _, _, s, h, hfits, hlaid, hcode, hready => by
    obtain ⟨first, rest, p', hst, hss, rfl⟩ := Lower.made_statements_cons h
    rw [statementsEntries, statementsCallees] at hfits
    have hfirst := hfits.left hground.valid
    have hrest := hfits.right hground.valid hground.frame.small
    have hlaid' := hlaid.lowered hground.valid hground.frame.small hfirst
    rw [← (Lower.made_statement_gives hst).cursor] at hrest hlaid'
    rw [codeAt_append] at hcode
    rw [Meaning.stmts, opCount_append]
    refine Sim.bind (sim_stmt hground hst hfirst hlaid hcode.1 hready) fun r w₁ s₁ h₁ => ?_
    cases r with
    | some v => exact Sim.of_can (Meaning.can_pure _ _) h₁.returned
    | none =>
      have hpc₁ : s₁.pc = s.pc + opCount first := h₁.ends
      refine (sim_stmts hground hss hrest hlaid' (hcode.2.at hpc₁) h₁.ready).conseq
        fun r w₂ s₂ h₂ => ?_
      rw [hpc₁, Nat.add_assoc] at h₂
      exact h₂.since h₁.keeps

end

end

end RvBackend.Simulation
