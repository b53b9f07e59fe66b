import RvBackend.Proofs.Lower.Slots
import RvBackend.Proofs.Simulation.Expression

/-! # Scopes

When a scope begins, its entries get slots below those of the visible ones, and code fills the slots
of constants and parameters. When it ends, its cells are forgotten.

* `Fits`: what is assumed of the entries of a construct and of the room for them.
* `Laid`: the visible entries lie above the cursor.
* `Ready`: the state between two statements.
* `Sim.install`: the code that begins a scope, `Sim.within`: an evaluation inside it. -/

namespace RvBackend.Simulation

open Asm (Register Line)
open Lower (lowered place)
open Machine (State CodeAt Fetched opCount codeAt_append opCount_append)
open Meaning (Evaluation World Can)

/-! ### Room for slots -/

/-- What is assumed of the entries of a construct, of its callees and of the room below the
cursor. -/
structure Fits (F : Frame) (abi : Abi) (entries : List Entry) (callees : List String)
    (cursor : Int64) :
    Prop where
  levels : ∀ e ∈ entries, e.isGlobal = false
  callees : ∀ c ∈ callees, c.toList.head? ≠ some '.'
  room : -F.size ≤ cursor.toInt - abi.slotSize.toInt * entries.length
  start : cursor.toInt ≤ -8
  aligned : 4 ∣ cursor.toInt

/-- The visible entries of a function lie above the cursor. -/
structure Laid (F : Frame) (cursor : Int64) (es : List Entry) : Prop extends Visible F es where
  above : ∀ e ∈ es, cursor.toInt ≤ e.slot.toInt

section

variable {F : Frame} {abi : Abi} {es es' : List Entry} {cs cs' : List String} {cursor : Int64}

theorem Fits.of_callees (h : Fits F abi es (cs ++ cs') cursor) : Fits F abi es cs' cursor :=
  { h with callees := fun c hc => h.callees c (List.mem_append_right _ hc) }

variable (hvalid : abi.Valid) (hF : F.size ≤ 2032)

include hvalid

theorem Fits.left (h : Fits F abi (es ++ es') (cs ++ cs') cursor) : Fits F abi es cs cursor := by
  have hslot := hvalid.slot_ge
  have hroom := h.room
  have hrest : 0 ≤ abi.slotSize.toInt * es'.length :=
    Int.mul_nonneg (by omega) (Int.natCast_nonneg _)
  rw [List.length_append, Int.natCast_add, Int.mul_add] at hroom
  exact ⟨fun e he => h.levels e (List.mem_append_left _ he),
    fun c hc => h.callees c (List.mem_append_left _ hc), by omega, h.start, h.aligned⟩

include hF

theorem Fits.toInt_lowered (h : Fits F abi es cs cursor) :
    (lowered abi cursor es.length).toInt = cursor.toInt - abi.slotSize.toInt * es.length := by
  have hslot := hvalid.slot_ge
  have hroom := h.room
  exact Lower.toInt_lowered (by omega) (by omega)

theorem Fits.right (h : Fits F abi (es ++ es') (cs ++ cs') cursor) :
    Fits F abi es' cs' (lowered abi cursor es.length) := by
  have hslot := hvalid.slot_ge
  have hroom := h.room
  have hstart := h.start
  have hbefore : 0 ≤ abi.slotSize.toInt * es.length :=
    Int.mul_nonneg (by omega) (Int.natCast_nonneg _)
  have hcursor := (h.left hvalid).toInt_lowered hvalid hF
  rw [List.length_append, Int.natCast_add, Int.mul_add] at hroom
  refine ⟨fun e he => h.levels e (List.mem_append_right _ he),
    fun c hc => h.callees c (List.mem_append_right _ hc), by omega, by omega, ?_⟩
  rw [hcursor]
  exact Int.dvd_sub h.aligned (Dvd.dvd.mul_right hvalid.slot_dvd _)

theorem Laid.lowered (h : Laid F cursor es) (hfits : Fits F abi es' cs cursor) :
    Laid F (lowered abi cursor es'.length) es := by
  have hslot := hvalid.slot_ge
  have hcursor := hfits.toInt_lowered hvalid hF
  have hbefore : 0 ≤ abi.slotSize.toInt * es'.length :=
    Int.mul_nonneg (by omega) (Int.natCast_nonneg _)
  refine ⟨h.toVisible, fun e he => ?_⟩
  have habove := h.above e he
  omega

theorem Laid.place {e : Entry} (h : Laid F cursor es) (hfits : Fits F abi (e :: es') cs cursor) :
    Laid F (cursor - abi.slotSize) (place abi cursor e :: es) := by
  have hslot := hvalid.slot_ge
  have hdvd := hvalid.slot_dvd
  have hstart := hfits.start
  have haligned := hfits.aligned
  have hroom := hfits.room
  have hone : Fits F abi ([e] ++ es') ([] ++ cs) cursor := hfits
  have hcursor : (cursor - abi.slotSize).toInt = cursor.toInt - abi.slotSize.toInt := by
    have hlowered := (hone.left hvalid).toInt_lowered hvalid hF
    rw [List.length_singleton, Nat.cast_one, Int.mul_one] at hlowered
    exact hlowered
  have hrest : 0 ≤ abi.slotSize.toInt * es'.length :=
    Int.mul_nonneg (by omega) (Int.natCast_nonneg _)
  rw [List.length_cons, Nat.cast_succ, Int.mul_add, Int.mul_one] at hroom
  have hframe : InFrame F (Lower.place abi cursor e) := by
    refine ⟨hfits.levels e List.mem_cons_self, ?_, ?_, ?_⟩
    · show -F.size ≤ (cursor - abi.slotSize).toInt
      omega
    · show (cursor - abi.slotSize).toInt ≤ -12
      omega
    · show 4 ∣ (cursor - abi.slotSize).toInt
      omega
  have hbelow : ∀ e' ∈ es, (cursor - abi.slotSize).toInt < e'.slot.toInt := by
    intro e' he'
    have habove := h.above e' he'
    omega
  refine ⟨⟨List.forall_mem_cons.mpr ⟨hframe, h.inFrame⟩, List.pairwise_cons.mpr ⟨?_, h.distinct⟩⟩,
    List.forall_mem_cons.mpr ⟨le_rfl, ?_⟩⟩
  · exact fun e' he' => (hbelow e' he').ne
  · exact fun e' he' => (hbelow e' he').le

end

/-! ### Between two statements -/

/-- The state between two statements: the local cells are in the frame, and the stack is empty below
it. -/
structure Ready (S : Site) (F : Frame) (es : List Entry) (w : World) (s : State) : Prop where
  env : Env F es w s
  sp : (s.reg Register.sp).toInt = F.fp.toInt - F.size
  agrees : Agrees S w s

variable {α : Type} {S : Site} {n : ℕ} {x : Evaluation α} {Q : α → World → State → Prop}
  {w w' : World} {s s' s'' : State} {F : Frame} {es : List Entry}

theorem Ready.stacked (h : Ready S F es w s) (hF : F.Valid S) : Stacked S s := by
  refine ⟨?_, ?_⟩
  · rw [h.sp]
    exact hF.floor
  · rw [h.sp]
    exact Int.dvd_sub hF.aligned hF.size_aligned

theorem Ready.undisturbed (h : Ready S F es w s) (hS : S.Valid) (hF : F.Valid S)
    (hes : Visible F es) (hund : Undisturbed (s.reg Register.sp).toInt s s')
    (hsp : s'.reg Register.sp = s.reg Register.sp) (hag : Agrees S w' s')
    (hlocals : w'.locals = w.locals) : Ready S F es w' s' :=
  ⟨h.env.undisturbed hS hF hes hund (hsp ▸ h.env.below) hlocals, hsp ▸ h.sp, hag⟩

theorem Ready.still {rs : List Register} (h : Ready S F es w s) (hstill : Still rs s s')
    (hrs : Register.s0 ∉ rs ∧ Register.sp ∉ rs) : Ready S F es w s' := by
  have hsp := hstill.regs _ hrs.2
  refine ⟨⟨(hstill.regs _ hrs.1).trans h.env.s0, hsp ▸ h.env.below, ?_⟩, hsp ▸ h.sp,
    hstill.agrees h.agrees⟩
  exact h.env.cells.imp fun e c hc => ⟨hc.name, fun v hv => by rw [hstill.cells, hc.word v hv]⟩

/-- What lies above the slots of the frame stays as it is. -/
theorem Ready.keeps (h : Ready S F es w s) (hF : F.Valid S)
    (hund : Undisturbed (s.reg Register.sp).toInt s s') : Keeps (F.fp.toInt - 8) s s' := by
  have hroom := hF.room
  have hsp := h.sp
  exact hund.keeps.mono (by omega)

/-! ### Slots that are filled -/

/-- The slots of some entries have been filled. -/
structure Filled (S : Site) (F : Frame) (w : World) (s s' : State) : Prop where
  regs : ∀ ρ, ρ ≠ Register.t0 → s'.reg ρ = s.reg ρ
  keeps : Keeps (F.fp.toInt - 8) s s'
  agrees : Agrees S w s'

theorem Filled.trans (h : Filled S F w s s') (h' : Filled S F w s' s'') : Filled S F w s s'' :=
  ⟨fun ρ hρ => (h'.regs ρ hρ).trans (h.regs ρ hρ), h.keeps.trans h'.keeps le_rfl, h'.agrees⟩

/-- The word of a register is put into the slot of a new entry. -/
theorem Sim.fill {r : String} {ρ : Register} {e : Entry} {locals : List (String × Option Int32)}
    (hS : S.Valid) (hF : F.Valid S) (hr : Register.ofName? r = some ρ)
    (hsw : Fetched S.code s.pc "sw" [.reg r, .mem e.slot "s0"]) (hes : Visible F (e :: es))
    (hs0 : s.reg Register.s0 = F.fp) (hcells : List.Forall₂ (CellOf F s) es locals)
    (hag : Agrees S w s) (hnext : ∀ s', s'.pc = s.pc + 1 →
      List.Forall₂ (CellOf F s') (e :: es) ((e.name, some (s.reg ρ)) :: locals) →
      Filled S F w s s' → Sim S n x Q s' w) : Sim S n x Q s w := by
  have he := hes.inFrame e List.mem_cons_self
  have haddr := toInt_address hS hF he
  have hlow := he.low
  have hhigh := he.high
  have hfloor := hF.floor
  have haligned : 4 ∣ (F.address e).toInt := by
    rw [haddr]
    exact Int.dvd_add hF.aligned he.aligned
  have hbase : s.reg Register.s0 + Int32.ofInt e.slot.toInt = F.address e := by
    rw [hs0]
    rfl
  refine Sim.poke (Machine.advances_sw hr ofName?_s0 hsw hbase haligned) fun s' hpc hpoked => ?_
  refine hnext s' hpc (.cons ⟨rfl, fun v hv => ?_⟩ (forall₂_of_mem hcells fun e' he' c hcell => ?_))
    ⟨fun ρ' _ => hpoked.regs ρ', hpoked.keeps (by omega), hpoked.agrees hS (by omega) hag⟩
  · rw [hpoked.cell]
    exact Option.some.inj hv
  · exact hcell.poked hS hF he (hes.inFrame e' (List.mem_cons_of_mem _ he'))
      ((List.pairwise_cons.mp hes.distinct).1 e' he').symm hpoked

section

variable {ctx : Lower.Context} {tables globals : Scopes} {ρs : List Register}
  {call : String → List Int32 → Evaluation Int32} (hground : Ground S F ctx globals ρs n call)

/-- The registers from some number on hold the arguments. -/
def Passed (ρs : List Register) (s : State) (params : ℕ) (args : List Int32) : Prop :=
  ∀ i v, args[i]? = some v → ∀ ρ, ρs[params + i]? = some ρ → s.reg ρ = v

include hground

theorem Ground.argument {params : ℕ} {r : String} (h : ctx.abi.registers[params]? = some r) :
    ∃ ρ, ρs[params]? = some ρ ∧ Register.ofName? r = some ρ := by
  obtain ⟨hlt, hr⟩ := List.getElem?_eq_some_iff.mp h
  have hlength := hground.registers.names.length_eq
  refine ⟨ρs[params], List.getElem?_eq_getElem (hlength ▸ hlt), ?_⟩
  rw [← hr]
  exact hground.registers.names.get hlt (hlength ▸ hlt)

theorem Sim.fillSlot {loc : Location} {params : ℕ} {e : Entry} {code : List Line}
    {args : List Int32} {locals : List (String × Option Int32)}
    (h : Lower.fillSlot ctx.abi loc params e = .ok code) (hcode : CodeAt S.code s.pc code)
    (hes : Visible F (e :: es)) (hs0 : s.reg Register.s0 = F.fp) (hpassed : Passed ρs s params args)
    (hcells : List.Forall₂ (CellOf F s) es locals) (hag : Agrees S w s)
    (hnext : ∀ s', s'.pc = s.pc + opCount code →
      List.Forall₂ (CellOf F s') (e :: es) (Meaning.cell args e :: locals) → Filled S F w s s' →
      Sim S n x Q s' w) : Sim S n x Q s w := by
  rcases Lower.fillSlot_eq_ok h with ⟨hkind, v, i, hv, hi, rfl⟩ | ⟨hkind, r, hr, rfl⟩ | ⟨hkind,
    hkind', rfl⟩
  · obtain ⟨hli, hsw, -⟩ := hcode
    obtain ⟨hval, -⟩ := Lower.toInt_immediate hi
    have hcell : Meaning.cell args e = (e.name, some (Int32.ofInt v)) := by
      rw [Meaning.cell, hkind, hv]; rfl
    rw [hcell] at hnext
    refine Sim.set (Machine.advances_li ofName?_t0 hli) (by decide) fun s₁ hpc₁ hreg hstill _ => ?_
    have hcells₁ : List.Forall₂ (CellOf F s₁) es locals :=
      hcells.imp fun e' c hc => ⟨hc.name, fun u hu => by rw [hstill.cells, hc.word u hu]⟩
    refine Sim.fill hground.site hground.frame ofName?_t0 (hsw.at hpc₁) hes
      ((hstill.regs _ (by decide)).trans hs0) hcells₁ (hstill.agrees hag)
      fun s₂ hpc₂ hcells₂ hfilled => ?_
    rw [hreg, hval] at hcells₂
    refine hnext s₂ (by rw [hpc₂, hpc₁]; rfl) hcells₂ ⟨fun ρ hρ => ?_, ?_, hfilled.agrees⟩
    · rw [hfilled.regs ρ hρ, hstill.regs ρ (by simpa using hρ)]
    · exact (hstill.keeps _).trans hfilled.keeps le_rfl
  · obtain ⟨hsw, -⟩ := hcode
    obtain ⟨ρ, hρ, hname⟩ := hground.argument hr
    refine Sim.fill hground.site hground.frame hname hsw hes hs0 hcells hag
      fun s' hpc hcells' hfilled => ?_
    cases hcells' with
    | cons hcell hrest =>
      have hargs : Meaning.cell args e = (e.name, args.head?) := by rw [Meaning.cell, hkind]
      refine hnext s' hpc (.cons ?_ hrest) hfilled
      rw [hargs]
      refine ⟨rfl, fun v hv => ?_⟩
      rw [List.head?_eq_getElem?] at hv
      rw [← hpassed 0 v hv ρ hρ]
      exact hcell.word _ rfl
  · have hcell : Meaning.cell args e = (e.name, none) := by
      rw [Meaning.cell]
      split
      · next hk => exact absurd hk hkind
      · next hk => exact absurd hk hkind'
      · rfl
    rw [hcell] at hnext
    exact hnext s rfl (.cons ⟨rfl, nofun⟩ hcells) ⟨fun _ _ => rfl, fun _ _ => rfl, hag⟩

/-- The slots of new entries are filled, one after the other. -/
theorem Sim.installEntries {loc : Location} :
    ∀ {new placed : List Entry} {params : ℕ} {code : List Line} {p q : Lower.Progress}
    {args : List Int32} {vis : List Entry} {locals : List (String × Option Int32)}
    {s : State}, Made (Lower.installEntries ctx.abi loc params new) p (placed, code) q →
    Fits F ctx.abi new [] p.cursor → Laid F p.cursor vis → CodeAt S.code s.pc code →
    s.reg Register.s0 = F.fp → Passed ρs s params args → List.Forall₂ (CellOf F s) vis locals →
    Agrees S w s →
    (∀ s', s'.pc = s.pc + opCount code → Laid F q.cursor (placed.reverse ++ vis) →
      List.Forall₂ (CellOf F s') (placed.reverse ++ vis) ((Meaning.cells args new).reverse ++
        locals) →
      Filled S F w s s' → Sim S n x Q s' w) → Sim S n x Q s w
  | [], _, _, _, _, _, _, _, _, s, h, _, hlaid, _, _, _, hcells, hag, hnext => by
    obtain ⟨rfl, rfl, rfl⟩ := Lower.made_installEntries_nil h
    exact hnext s rfl hlaid hcells ⟨fun _ _ => rfl, fun _ _ => rfl, hag⟩
  | e :: new, _, params, _, p, q, args, vis, locals, s, h, hfits, hlaid, hcode, hs0, hpassed,
      hcells, hag, hnext => by
    obtain ⟨-, fill, rest, placed, hfill, hrest, rfl, rfl⟩ := Lower.made_installEntries_cons h
    have hplaced := hlaid.place hground.valid hground.frame.small hfits
    have hnew : Fits F ctx.abi ([e] ++ new) ([] ++ []) p.cursor := hfits
    rw [codeAt_append] at hcode
    refine Sim.fillSlot hground hfill hcode.1 hplaced.toVisible hs0 hpassed hcells hag
      fun s₁ hpc₁ hcells₁ hfilled₁ => ?_
    have hpassed₁ : Passed ρs s₁ (if e.kind = .parameter then params + 1 else params)
        (if e.kind = .parameter then args.tail else args) := by
      intro i v hv ρ hρ
      have hmem := List.mem_of_getElem? hρ
      rw [hfilled₁.regs ρ fun heq => hground.registers.free ρ hmem (by rw [heq]; decide)]
      split at hρ
      · next hk =>
        rw [if_pos hk, List.getElem?_tail] at hv
        exact hpassed (i + 1) v hv ρ (by rw [← hρ]; congr 1; omega)
      · next hk =>
        rw [if_neg hk] at hv
        exact hpassed i v hv ρ hρ
    refine Sim.installEntries hrest (hnew.right hground.valid hground.frame.small) hplaced
      (hcode.2.at hpc₁) ((hfilled₁.regs _ (by decide)).trans hs0) hpassed₁ hcells₁ hfilled₁.agrees
      fun s₂ hpc₂ hlaid₂ hcells₂ hfilled₂ => ?_
    refine hnext s₂ (by rw [hpc₂, hpc₁, opCount_append]; omega) ?_ ?_ (hfilled₁.trans hfilled₂)
    · rw [List.reverse_cons, List.append_assoc]
      exact hlaid₂
    · rw [Meaning.cells, List.reverse_cons, List.reverse_cons, List.append_assoc, List.append_assoc]
      exact hcells₂

/-- The slots of a new scope are filled. -/
theorem Sim.install {loc : Location} {t t' : Option Table} {code : List Line} {p q : Lower.Progress}
    {args : List Int32} {vis : List Entry} {locals : List (String × Option Int32)}
    (h : Made (Lower.install ctx loc t) p (t', code) q)
    (hfits : Fits F ctx.abi (Table.entriesOf t) [] p.cursor) (hlaid : Laid F p.cursor vis)
    (hcode : CodeAt S.code s.pc code) (hs0 : s.reg Register.s0 = F.fp)
    (hpassed : Passed ρs s 0 args) (hcells : List.Forall₂ (CellOf F s) vis locals)
    (hag : Agrees S w s)
    (hnext : ∀ s', s'.pc = s.pc + opCount code →
      Laid F q.cursor ((Table.entriesOf t').reverse ++ vis) →
      List.Forall₂ (CellOf F s') ((Table.entriesOf t').reverse ++ vis)
        ((Meaning.cells args (Table.entriesOf t)).reverse ++ locals) →
      Filled S F w s s' → Sim S n x Q s' w) : Sim S n x Q s w := by
  cases t with
  | none =>
    obtain ⟨rfl, rfl, rfl⟩ := Lower.made_install_none h
    exact hnext s rfl hlaid hcells ⟨fun _ _ => rfl, fun _ _ => rfl, hag⟩
  | some t =>
    obtain ⟨placed, q', log, rfl, hentries, rfl⟩ := Lower.made_install_some h
    exact Sim.installEntries hground hentries hfits hlaid hcode hs0 hpassed hcells hag hnext

end

/-! ### Inside a scope -/

/-- Where a construct ends: at its own end, or at the exit of the function with the result in its
register. -/
def Ends (F : Frame) (stop : ℕ) (s : State) : Option Int32 → Prop
  | none => s.pc = stop
  | some v => s.pc = F.exit ∧ s.reg Register.a0 = v

/-- The code of a construct, begun in the state `s`, has come to its end. -/
structure Done (S : Site) (F : Frame) (es : List Entry) (stop : ℕ) (s : State) (r : Option Int32)
    (w' : World) (s' : State) : Prop where
  ready : Ready S F es w' s'
  keeps : Keeps (F.fp.toInt - 8) s s'
  ends : Ends F stop s' r

theorem Done.since {stop : ℕ} {r : Option Int32} (h : Done S F es stop s' r w' s'')
    (hkeeps : Keeps (F.fp.toInt - 8) s s') : Done S F es stop s r w' s'' :=
  ⟨h.ready, hkeeps.trans h.keeps le_rfl, h.ends⟩

/-- Where a construct ends that has returned does not depend on its own end. -/
theorem Done.returned {stop stop' : ℕ} {v : Int32} (h : Done S F es stop s (some v) w' s') :
    Done S F es stop' s (some v) w' s' := ⟨h.ready, h.keeps, h.ends⟩

theorem enter_append (tables globals : Scopes) (t : Option Table) :
    (tables ++ globals).enter t = tables.enter t ++ globals :=
  (List.append_assoc _ _ _).symm

theorem entriesIn_enter (tables : Scopes) (t : Option Table) :
    entriesIn (tables.enter t) = (Table.entriesOf t).reverse ++ entriesIn tables := by
  cases t with
  | none => rfl
  | some t => rfl

section

variable {ctx : Lower.Context} {tables globals : Scopes} {ρs : List Register}
  {call : String → List Int32 → Evaluation Int32} (hground : Ground S F ctx globals ρs n call)

include hground

/-- An evaluation inside a scope. -/
theorem Sim.within {loc : Location} {t t' : Option Table} {code : List Line} {p q : Lower.Progress}
    {stop : ℕ} {x : Evaluation (Option Int32)} (h : Made (Lower.install ctx loc t) p (t', code) q)
    (hfits : Fits F ctx.abi (Table.entriesOf t) [] p.cursor)
    (hlaid : Laid F p.cursor (entriesIn tables)) (hcode : CodeAt S.code s.pc code)
    (hready : Ready S F (entriesIn tables) w s)
    (hinner : ∀ w₁ s₁, s₁.pc = s.pc + opCount code → Laid F q.cursor (entriesIn (tables.enter t')) →
      Ready S F (entriesIn (tables.enter t')) w₁ s₁ →
      Sim S n x (Done S F (entriesIn (tables.enter t')) stop s₁) s₁ w₁) :
    Sim S n (Meaning.within t x) (Done S F (entriesIn tables) stop s) s w := by
  rw [entriesIn_enter] at hinner
  rw [Meaning.within]
  have hpassed : Passed ρs s 0 [] := fun i v hv => by simp at hv
  refine Sim.after (Meaning.can_modify (fun _ _ => rfl) w) ?_
  refine Sim.install hground h hfits hlaid hcode hready.env.s0 hpassed hready.env.cells
    (hready.agrees.of_globals rfl rfl rfl) fun s₁ hpc₁ hlaid₁ hcells₁ hfilled => ?_
  have hsp : s₁.reg Register.sp = s.reg Register.sp := hfilled.regs _ (by decide)
  have hready₁ : Ready S F ((Table.entriesOf t').reverse ++ entriesIn tables)
      { w with locals := Meaning.scopeCells t ++ w.locals } s₁ :=
    ⟨⟨(hfilled.regs _ (by decide)).trans hready.env.s0, hsp ▸ hready.env.below, hcells₁⟩,
      hsp ▸ hready.sp, hfilled.agrees⟩
  have hlength : (Meaning.scopeCells t).length = (Table.entriesOf t').reverse.length := by
    have hall := hcells₁.length_eq
    have hvis := hready.env.cells.length_eq
    rw [List.length_append, List.length_append, hvis] at hall
    exact (Nat.add_right_cancel hall).symm
  refine Sim.bind (hinner _ s₁ hpc₁ hlaid₁ hready₁) fun r w₂ s₂ hdone => ?_
  refine Sim.after (Meaning.can_modify (fun _ _ => rfl) w₂) (Sim.of_can (Meaning.can_pure _ _) ?_)
  have hcells₂ := List.forall₂_drop (Table.entriesOf t').reverse.length hdone.ready.env.cells
  rw [List.drop_left, ← hlength] at hcells₂
  exact ⟨⟨⟨hdone.ready.env.s0, hdone.ready.env.below, hcells₂⟩, hdone.ready.sp,
    hdone.ready.agrees.of_globals rfl rfl rfl⟩, hfilled.keeps.trans hdone.keeps le_rfl, hdone.ends⟩

end

end RvBackend.Simulation
