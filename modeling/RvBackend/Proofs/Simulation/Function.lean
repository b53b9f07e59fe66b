import RvBackend.Proofs.Lower.FrameLayout
import RvBackend.Proofs.Simulation.Statement

/-! # Functions

A function saves what its caller needs, makes room for its slots, runs its body and gives everything
back. So a call leaves the stack as it was, however the body ends.

* `Sim.enter`, `Sim.leave`: the code around the body.
* `sim_apply`: the code of a function shows what its body comes to.
* `sim_invoke`: calls do what they should, as long as there is fuel. -/

namespace RvBackend.Simulation

open Asm (Register Line)
open Lower (Progress)
open Machine (State CodeAt Fetched opCount codeAt_append opCount_append)
open Meaning (Evaluation World Can)

variable {α : Type} {S : Site} {n : ℕ} {x : Evaluation α} {Q : α → World → State → Prop}
  {w w' : World} {s s' : State} {F : Frame}

/-! ### The code around a body -/

theorem add_offset {a b : Int32} {i : Int64} (hlow : -2 ^ 31 ≤ i.toInt) (hhigh : i.toInt < 2 ^ 31)
    (h : b.toInt + i.toInt = a.toInt) : b + Int32.ofInt i.toInt = a := by
  have hrange := a.toInt_lt
  have hrange' := a.le_toInt
  have hoffset : (Int32.ofInt i.toInt).toInt = i.toInt := Int32.toInt_ofInt_of_le hlow hhigh
  rw [← Int32.toInt_inj, Machine.toInt_add_of_le (by omega) (by omega), hoffset, h]

theorem toInt_size_sub {size i : Int64} (hsize : 0 ≤ size.toInt) (hi : 0 ≤ i.toInt) :
    (size - i).toInt = size.toInt - i.toInt := by
  have hlt := size.toInt_lt
  have hlt' := i.toInt_lt
  rw [Int64.toInt_sub]
  exact Int.bmod_eq_of_le (by omega) (by omega)

/-- A function has been entered: its frame is there, and it holds what the caller needs. -/
structure Entered (S : Site) (F : Frame) (w : World) (s s' : State) : Prop where
  valid : F.Valid S
  s0 : s'.reg Register.s0 = F.fp
  sp : (s'.reg Register.sp).toInt = F.fp.toInt - F.size
  savedRa : s'.cell (F.fp - 4) = s.reg Register.ra
  savedS0 : s'.cell (F.fp - 4 - 4) = s.reg Register.s0
  keeps : Keeps F.fp.toInt s s'
  regs : ∀ ρ, ρ ∉ [Register.sp, Register.s0] → s'.reg ρ = s.reg ρ
  agrees : Agrees S w s'

theorem Sim.enter {size : Int64} (exit : ℕ) (hS : S.Valid) (hroom : 8 ≤ size.toInt)
    (hsmall : size.toInt ≤ 2032) (hdvd : 4 ∣ size.toInt) (hst : Stacked S s) (hag : Agrees S w s)
    (hcode : CodeAt S.code s.pc [.op "addi" [Lower.sp, Lower.sp, .imm (-size)],
      .op "sw" [Lower.ra, .mem (size - Lower.wordSize) "sp"],
      .op "sw" [Lower.s0, .mem (size - 2 * Lower.wordSize) "sp"],
      .op "addi" [Lower.s0, Lower.sp, .imm size]])
    (hnext : ∀ s', s'.pc = s.pc + 4 → Entered S ⟨s.reg Register.sp, size.toInt, exit⟩ w s s' →
      Sim S n x Q s' w) : Sim S n x Q s w := by
  obtain ⟨haddi, hswRa, hswS0, haddiS0, -⟩ := hcode
  have hfloor := hS.floor
  have hsp := hst.floor
  have hlt := (s.reg Register.sp).toInt_lt
  have hfp := toInt_sub_four (a := s.reg Register.sp) (by omega)
  have hfp' := toInt_sub_four (a := s.reg Register.sp - 4) (by omega)
  have hneg : (-size).toInt = -size.toInt := by
    rw [Int64.toInt_neg]
    exact Int.bmod_eq_of_le (by omega) (by omega)
  have hra : (size - Lower.wordSize).toInt = size.toInt - 4 := toInt_size_sub (by omega) (by decide)
  have hs0 : (size - 2 * Lower.wordSize).toInt = size.toInt - 8 :=
    toInt_size_sub (by omega) (by decide)
  refine Sim.set (Machine.advances_addi ofName?_sp ofName?_sp haddi) (by decide)
    fun s₁ hpc₁ hreg₁ hstill₁ hlow => ?_
  have hsp₁ : (s₁.reg Register.sp).toInt = (s.reg Register.sp).toInt - size.toInt := by
    have hoffset : (Int32.ofInt (-size).toInt).toInt = -size.toInt := by
      rw [hneg]
      exact Int32.toInt_ofInt_of_le (by omega) (by omega)
    rw [hreg₁, Machine.toInt_add_of_le (by omega) (by omega), hoffset]
    omega
  have hlow₁ : S.floor ≤ (s.reg Register.sp).toInt - size.toInt := hsp₁ ▸ not_lt.mp hlow
  have haligned := hst.aligned
  -- the return address and the frame pointer of the caller
  refine Sim.poke (Machine.advances_sw ofName?_ra ofName?_sp (hswRa.at hpc₁)
    (add_offset (a := s.reg Register.sp - 4) (by omega) (by omega) (by omega)) (by omega))
    fun s₂ hpc₂ hpoked₂ => ?_
  have hsp₂ : (s₂.reg Register.sp).toInt = (s.reg Register.sp).toInt - size.toInt := by
    rw [hpoked₂.regs, hsp₁]
  refine Sim.poke (Machine.advances_sw ofName?_s0 ofName?_sp (hswS0.at (by omega))
    (add_offset (a := s.reg Register.sp - 4 - 4) (by omega) (by omega) (by omega)) (by omega))
    fun s₃ hpc₃ hpoked₃ => ?_
  have hsp₃ : (s₃.reg Register.sp).toInt = (s.reg Register.sp).toInt - size.toInt := by
    rw [hpoked₃.regs, hsp₂]
  refine Sim.set (Machine.advances_addi ofName?_s0 ofName?_sp (haddiS0.at (by omega))) (by decide)
    fun s₄ hpc₄ hreg₄ hstill₄ _ => ?_
  have hne : s.reg Register.sp - 4 ≠ s.reg Register.sp - 4 - 4 := by
    intro heq
    rw [← heq] at hfp'
    omega
  have hag₃ : Agrees S w s₃ :=
    hpoked₃.agrees hS (by omega) (hpoked₂.agrees hS (by omega) (hstill₁.agrees hag))
  refine hnext s₄ (by omega) ⟨⟨hroom, hsmall, hlow₁, haligned, hdvd⟩, ?_, ?_, ?_, ?_, ?_, ?_,
    hstill₄.agrees hag₃⟩
  · show s₄.reg Register.s0 = s.reg Register.sp
    rw [hreg₄]
    exact add_offset (by omega) (by omega) (by omega)
  · rw [hstill₄.regs _ (by decide), hsp₃]
  · show s₄.cell (s.reg Register.sp - 4) = _
    rw [hstill₄.cells, hpoked₃.cells _ hne, hpoked₂.cell, hstill₁.regs _ (by decide)]
  · show s₄.cell (s.reg Register.sp - 4 - 4) = _
    rw [hstill₄.cells, hpoked₃.cell, hpoked₂.regs, hstill₁.regs _ (by decide)]
  · show Keeps (s.reg Register.sp).toInt s s₄
    exact (((hstill₁.keeps _).trans (hpoked₂.keeps (by omega)) le_rfl).trans
      (hpoked₃.keeps (by omega)) le_rfl).trans (hstill₄.keeps _) le_rfl
  · intro ρ hρ
    rw [hstill₄.regs ρ (fun h => hρ (List.mem_cons_of_mem _ h)), hpoked₃.regs, hpoked₂.regs,
      hstill₁.regs ρ (fun h => hρ (List.mem_cons.mpr (.inl (List.mem_singleton.mp h))))]

theorem Sim.leave {size : Int64} {exit : ℕ} {a : Int32} (hS : S.Valid)
    (hF : Frame.Valid ⟨a, size.toInt, exit⟩ S)
    (hsp : (s.reg Register.sp).toInt = a.toInt - size.toInt)
    (hcode : CodeAt S.code s.pc [.op "lw" [Lower.ra, .mem (size - Lower.wordSize) "sp"],
      .op "lw" [Lower.s0, .mem (size - 2 * Lower.wordSize) "sp"],
      .op "addi" [Lower.sp, Lower.sp, .imm size]])
    (hnext : ∀ s', s'.pc = s.pc + 3 → s'.reg Register.ra = s.cell (a - 4) →
      s'.reg Register.s0 = s.cell (a - 4 - 4) → s'.reg Register.sp = a →
      Still [Register.ra, Register.s0, Register.sp] s s' → Sim S n x Q s' w) : Sim S n x Q s w := by
  obtain ⟨hlwRa, hlwS0, haddi, -⟩ := hcode
  have hfloor := hS.floor
  have hroom : 8 ≤ size.toInt := hF.room
  have hsmall : size.toInt ≤ 2032 := hF.small
  have hlow : S.floor ≤ a.toInt - size.toInt := hF.floor
  have haligned : 4 ∣ a.toInt := hF.aligned
  have hlt := a.toInt_lt
  have hfp := toInt_sub_four (a := a) (by omega)
  have hfp' := toInt_sub_four (a := a - 4) (by omega)
  have hra : (size - Lower.wordSize).toInt = size.toInt - 4 := toInt_size_sub (by omega) (by decide)
  have hs0 : (size - 2 * Lower.wordSize).toInt = size.toInt - 8 :=
    toInt_size_sub (by omega) (by decide)
  refine Sim.set (Machine.advances_lw ofName?_ra ofName?_sp hlwRa
    (add_offset (a := a - 4) (by omega) (by omega) (by omega)) (by omega)) (by decide)
    fun s₁ hpc₁ hreg₁ hstill₁ _ => ?_
  have hsp₁ : (s₁.reg Register.sp).toInt = a.toInt - size.toInt := by
    rw [hstill₁.regs _ (by decide), hsp]
  refine Sim.set (Machine.advances_lw ofName?_s0 ofName?_sp (hlwS0.at hpc₁)
    (add_offset (a := a - 4 - 4) (by omega) (by omega) (by omega)) (by omega)) (by decide)
    fun s₂ hpc₂ hreg₂ hstill₂ _ => ?_
  have hsp₂ : (s₂.reg Register.sp).toInt = a.toInt - size.toInt := by
    rw [hstill₂.regs _ (by decide), hsp₁]
  refine Sim.set (Machine.advances_addi ofName?_sp ofName?_sp (haddi.at (by omega))) (by decide)
    fun s₃ hpc₃ hreg₃ hstill₃ _ => ?_
  refine hnext s₃ (by omega) ?_ ?_ ?_ ((hstill₁.trans hstill₂).trans hstill₃)
  · rw [hstill₃.regs _ (by decide), hstill₂.regs _ (by decide), hreg₁]
  · rw [hstill₃.regs _ (by decide), hreg₂, hstill₁.cells]
  · rw [hreg₃]
    exact add_offset (by omega) (by omega) (by omega)

/-! ### Bodies -/

/-- What is assumed of a function: its code stands in the listing under its name, and its slots fit
its frame. -/
structure Stands (S : Site) (abi : Abi) (globals : Scopes) (f : Function) (start : ℕ) : Prop where
  label : S.code.codeLabels.lookup f.name = some start
  code : ∃ g p q, Lower.LoweredFunction abi globals f p g q ∧ CodeAt S.code start g.lines
  levels : ∀ e ∈ f.entries, e.isGlobal = false
  callees : ∀ c ∈ f.callees, c.toList.head? ≠ some '.'
  room : 8 + abi.slotSize.toInt * f.entries.length ≤ 2 ^ 63 - 16

/-- The body of a function has come to its end, and all that is left is to go back. -/
structure Left (S : Site) (s : State) (w : World) (r : Option Int32) (w' : World) (s' : State) :
    Prop where
  jr : Fetched S.code s'.pc "jr" [Lower.ra]
  ra : s'.reg Register.ra = s.reg Register.ra
  sp : s'.reg Register.sp = s.reg Register.sp
  undisturbed : Undisturbed (s.reg Register.sp).toInt s s'
  result : ∀ v ∈ r, s'.reg Register.a0 = v
  agrees : Agrees S w' s'
  locals : w'.locals = w.locals

theorem Arguments.of_regs {ρs : List Register} {args : List Int32} (h : Arguments ρs s args)
    (hregs : ∀ ρ ∈ ρs, s'.reg ρ = s.reg ρ) : Arguments ρs s' args :=
  forall₂_of_mem h fun ρ hρ _ hv => (hregs ρ (List.mem_of_mem_take hρ)).trans hv

theorem Arguments.passed {ρs : List Register} {args : List Int32} (h : Arguments ρs s args) :
    Passed ρs s 0 args := by
  intro i v hv ρ hρ
  rw [Nat.zero_add] at hρ
  obtain ⟨hlt, hval⟩ := List.getElem?_eq_some_iff.mp hv
  obtain ⟨hlt', hreg⟩ := List.getElem?_eq_some_iff.mp hρ
  have htake : i < (ρs.take args.length).length := by
    rw [List.length_take]
    omega
  have hget : s.reg ((ρs.take args.length).get ⟨i, htake⟩) = args.get ⟨i, hlt⟩ := h.get htake hlt
  rw [← hval, ← hreg]
  simpa using hget

theorem Ends.pc {stop : ℕ} {r : Option Int32} (h : Ends F stop s r) (hstop : stop = F.exit) :
    s.pc = F.exit := by
  cases r with
  | none => exact Eq.trans h hstop
  | some v => exact h.1

theorem Ends.result {stop : ℕ} {r : Option Int32} (h : Ends F stop s r) :
    ∀ v ∈ r, s.reg Register.a0 = v := by
  cases r with
  | none => exact nofun
  | some v =>
    rintro u hu
    cases hu
    exact h.2

/-- The parts of the code of a function: where they stand, and what they were made from. -/
structure Parts (S : Site) (abi : Abi) (globals : Scopes) (f : Function) (start : ℕ) (size : Int64)
    (scope : Option Table) (fill body : List Line) (p p' p'' : Progress) : Prop where
  cursor : p.cursor = ({} : Progress).cursor
  install : Made (Lower.install ⟨abi, f.name⟩ f.loc f.scope) p (scope, fill) p'
  made : Made (Lower.optionalBlock ⟨abi, f.name⟩ (globals.enter scope) f.body) p' body p''
  room : 8 + abi.slotSize.toInt * f.entries.length ≤ size.toInt
  small : size.toInt ≤ 2032
  dvd : 4 ∣ size.toInt
  enterCode : CodeAt S.code start [.op "addi" [Lower.sp, Lower.sp, .imm (-size)],
    .op "sw" [Lower.ra, .mem (size - Lower.wordSize) "sp"],
    .op "sw" [Lower.s0, .mem (size - 2 * Lower.wordSize) "sp"],
    .op "addi" [Lower.s0, Lower.sp, .imm size]]
  fillCode : CodeAt S.code (start + 4) fill
  bodyCode : CodeAt S.code (start + 4 + opCount fill) body
  exit : S.code.codeLabels.lookup (Lower.Context.exitLabel ⟨abi, f.name⟩) =
    some (start + 4 + opCount fill + opCount body)
  leaveCode : CodeAt S.code (start + 4 + opCount fill + opCount body)
    [.op "lw" [Lower.ra, .mem (size - Lower.wordSize) "sp"],
      .op "lw" [Lower.s0, .mem (size - 2 * Lower.wordSize) "sp"],
      .op "addi" [Lower.sp, Lower.sp, .imm size]]
  jr : Fetched S.code (start + 4 + opCount fill + opCount body + 3) "jr" [Lower.ra]

theorem Stands.parts {abi : Abi} {globals : Scopes} {f : Function} {start : ℕ}
    (h : Stands S abi globals f start) (hvalid : abi.Valid) : ∃ size scope fill body p p' p'',
      Parts S abi globals f start size scope fill body p p' p'' := by
  obtain ⟨g, p, q, hlowered, hcode⟩ := h.code
  obtain ⟨hcursor, -⟩ := hlowered.gives
  obtain ⟨scope, fill, body, size, log, log', p', p'', hscope, hmade, hsize, rfl, -, hlines⟩ :=
    hlowered
  have hslot : 0 ≤ abi.slotSize.toInt := hvalid.slot_pos.le
  have hend : p''.cursor = Lower.lowered abi ({} : Progress).cursor f.entries.length := hcursor
  rw [hend] at hsize
  obtain ⟨hval, hroom, hsmall⟩ :=
    @Lower.toInt_frameSize_lowered ⟨abi, f.name⟩ _ _ _ hsize hslot h.room
  have hdvd := Lower.dvd_frameSize hval hvalid.frame_dvd
  rw [hlines, Lower.frameCode, codeAt_append, codeAt_append, codeAt_append] at hcode
  simp only [opCount_append, Machine.opCount_remark, Machine.opCount_op,
    Machine.opCount_nil] at hcode
  obtain ⟨⟨henter, hfill, hbody⟩, hexit, hlwRa, hlwS0, haddi, hjr, -⟩ := hcode
  have hindex : start + (0 + 1 + 1 + 1 + 1 + (opCount fill + opCount body)) =
      start + 4 + opCount fill + opCount body := by omega
  rw [hindex] at hexit hlwRa hlwS0 haddi hjr
  exact ⟨size, scope, fill, body, { p with cursor := ({} : Progress).cursor, log }, p', p'', rfl,
    hscope, hmade, hroom, hsmall, by omega, henter, hfill, hbody, hexit,
    ⟨hlwRa, hlwS0, haddi, trivial⟩, hjr⟩

section

variable {abi : Abi} {globals : Scopes} {ρs : List Register} (hbase : Base S abi globals ρs)

include hbase

/-- **Functions**: the code of a function shows what its body comes to, and the stack is as it
was. -/
theorem sim_apply {call : String → List Int32 → Evaluation Int32} {f : Function} {start : ℕ}
    {args : List Int32} (hcalls : Calls S ρs n call) (hf : Stands S abi globals f start)
    (hpc : s.pc = start) (hargs : Arguments ρs s args) (hst : Stacked S s) (hag : Agrees S w s) :
    Sim S n (Meaning.apply abi call n f args) (Left S s w) s w := by
  obtain ⟨size, scope, fill, body, p, p', p'', h⟩ := hf.parts hbase.valid
  have hslot := hbase.valid.slot_ge
  have hroom := h.room
  have hnonneg : 0 ≤ abi.slotSize.toInt * f.entries.length :=
    Int.mul_nonneg (by omega) (Int.natCast_nonneg _)
  rw [Meaning.apply]
  refine Sim.get (fun _ => rfl) (Sim.after (Meaning.can_modify (fun _ _ => rfl) w) ?_)
  refine Sim.enter (start + 4 + opCount fill + opCount body) hbase.site (by omega) h.small h.dvd hst
    (hag.of_globals rfl rfl rfl) (h.enterCode.at hpc) fun s₁ hpc₁ hentered => ?_
  have hground : Ground S _ ⟨abi, f.name⟩ globals ρs n call :=
    { toBase := hbase, frame := hentered.valid, exit := h.exit, calls := hcalls }
  have hfits : Fits ⟨s.reg Register.sp, size.toInt, start + 4 + opCount fill + opCount body⟩ abi
      (Table.entriesOf f.scope ++ blockEntries f.body) ([] ++ blockCallees f.body) p.cursor := by
    have hstart : p.cursor.toInt = -8 := by rw [h.cursor, Lower.toInt_start]
    refine ⟨hf.levels, hf.callees, ?_, by omega, by omega⟩
    show -size.toInt ≤ _ - abi.slotSize.toInt * f.entries.length
    omega
  have hbodyFits := hfits.right hbase.valid hentered.valid.small
  rw [show Lower.lowered abi p.cursor (Table.entriesOf f.scope).length = p'.cursor from
    (Lower.made_install_gives h.install).cursor.symm] at hbodyFits
  have hargs₁ : Arguments ρs s₁ args := by
    refine hargs.of_regs fun ρ hρ => hentered.regs ρ fun hmem => hbase.registers.free ρ hρ ?_
    simp only [List.mem_cons, List.not_mem_nil, or_false] at hmem ⊢
    tauto
  -- the slots of the scope
  refine Sim.install hground h.install (hfits.left hbase.valid) ⟨⟨by simp, .nil⟩, by simp⟩
    (h.fillCode.at (by omega)) hentered.s0 hargs₁.passed .nil hentered.agrees
    fun s₂ hpc₂ hlaid₂ hcells₂ hfilled => ?_
  have hmade : Made (Lower.optionalBlock ⟨abi, f.name⟩ (Scopes.enter [] scope ++ globals) f.body) p'
      body p'' := by
    have henter := enter_append [] globals scope
    rw [List.nil_append] at henter
    rw [← henter]
    exact h.made
  have hentries : entriesIn (Scopes.enter [] scope) = (Table.entriesOf scope).reverse ++ [] :=
    entriesIn_enter [] scope
  rw [← hentries] at hlaid₂ hcells₂
  rw [List.append_nil] at hcells₂
  have hsp₂ : s₂.reg Register.sp = s₁.reg Register.sp := hfilled.regs _ (by decide)
  have hready₂ : Ready S _ (entriesIn (Scopes.enter [] scope)) _ s₂ :=
    ⟨⟨(hfilled.regs _ (by decide)).trans hentered.s0, by rw [hsp₂, hentered.sp], hcells₂⟩,
      by rw [hsp₂, hentered.sp], hfilled.agrees⟩
  -- the body
  refine Sim.bind
    (sim_optionalBlock hground hmade hbodyFits hlaid₂ (h.bodyCode.at (by omega)) hready₂)
    fun r w₃ s₃ h₃ => ?_
  have hpc₃ : s₃.pc = start + 4 + opCount fill + opCount body :=
    h₃.ends.pc (by show _ = start + 4 + opCount fill + opCount body; omega)
  have hkeeps₃ : Keeps ((s.reg Register.sp).toInt - 8) s₁ s₃ := hfilled.keeps.trans h₃.keeps le_rfl
  have hfp : (s.reg Register.sp - 4).toInt = (s.reg Register.sp).toInt - 4 := by
    have hfloor := hbase.site.floor
    have hsp := hst.floor
    exact toInt_sub_four (by omega)
  have hfp' : (s.reg Register.sp - 4 - 4).toInt = (s.reg Register.sp).toInt - 8 := by
    have hfloor := hbase.site.floor
    have hsp := hst.floor
    rw [toInt_sub_four (by omega), hfp]
    omega
  -- the way back
  refine Sim.leave hbase.site hentered.valid h₃.ready.sp (h.leaveCode.at hpc₃)
    fun s₄ hpc₄ hra hs0 hsp hstill => ?_
  refine Sim.after (Meaning.can_modify (fun _ _ => rfl) w₃) (Sim.of_can (Meaning.can_pure _ _)
    ⟨h.jr.at (by omega), ?_, hsp, ⟨?_, ?_⟩, ?_, ?_, rfl⟩)
  · rw [hra, hkeeps₃ _ (by omega)]
    exact hentered.savedRa
  · rw [hs0, hkeeps₃ _ (by omega)]
    exact hentered.savedS0
  · have hbody : Keeps (s.reg Register.sp).toInt s₁ s₃ := hkeeps₃.mono (by omega)
    exact (hentered.keeps.trans hbody le_rfl).trans (hstill.keeps _) le_rfl
  · intro v hv
    rw [hstill.regs _ (by decide), h₃.ends.result v hv]
  · exact (hstill.agrees h₃.ready.agrees).of_globals rfl rfl rfl

/-- What is assumed of a program: each function stands in the listing, and labels that do not begin
with a point are names of functions. -/
structure Housed (S : Site) (abi : Abi) (globals : Scopes) (p : Program) : Prop where
  stands : ∀ f ∈ Lower.routines abi p, ∃ start, Stands S abi globals f start
  labels : ∀ name start, S.code.codeLabels.lookup name = some start → name.toList.head? ≠ some '.' →
    ∃ f ∈ Lower.routines abi p, f.name = name

theorem pc_lt_of_fetched {m : String} {os : List Asm.Operand} (h : Fetched S.code s.pc m os) :
    s.pc < 2 ^ 28 := by
  obtain ⟨ins, hins, -⟩ := h
  have hlt := (Array.getElem?_eq_some_iff.mp hins).1
  have hsmall := hbase.small
  omega

/-- **Calls**: a call instruction shows what the call comes to. The induction is on the fuel; the
call itself is the step that pays for it. -/
theorem sim_invoke {p : Program} (hp : Housed S abi globals p) :
    ∀ n : ℕ, Calls S ρs n (Meaning.invoke abi p n)
  | 0, _, _, _, _, _, _, _, _, hag =>
    Sim.stop (Meaning.can_throw _ _) (.fuel (Nat.zero_le _) hag.input hag.output)
  | n + 1, callee, vs, s, w, hdot, hjal, hargs, hst, hag => by
    rw [Meaning.invoke]
    split
    · next hhelper => exact Sim.serve hbase hhelper hjal (Meaning.can_guess _ _) hag
    · next hhelper =>
      rw [not_or] at hhelper
      have hprint : callee ≠ S.names.printHelper := hbase.printHelper ▸ hhelper.1
      have hread : callee ≠ S.names.readHelper := hbase.readHelper ▸ hhelper.2
      split
      · next hfind =>
        have hnone : S.code.codeLabels.lookup callee = none := by
          cases hlookup : S.code.codeLabels.lookup callee with
          | none => rfl
          | some start =>
            obtain ⟨f, hf, hname⟩ := hp.labels callee start hlookup hdot
            exact absurd (beq_of_eq hname) (by simpa using List.find?_eq_none.mp hfind f hf)
        exact Sim.stop (Meaning.can_throw _ _)
          (.trap rfl (Machine.traps_jal ofName?_ra hjal hprint hread hnone) ⟨rfl, hnone⟩ hag.input
            hag.output)
      · next f hfind =>
        obtain ⟨start, hstands⟩ := hp.stands f (List.mem_of_find?_eq_some hfind)
        obtain rfl : f.name = callee := by simpa using List.find?_some hfind
        have hpc := pc_lt_of_fetched hbase hjal
        obtain ⟨hindex, hhalt⟩ := Machine.codeIndex?_codeAddress (i := s.pc + 1) (by omega)
        refine Sim.link (Machine.advances_jal ofName?_ra hjal hprint hread hstands.label)
          (by decide) fun s₁ hpc₁ hra₁ hstill₁ => ?_
        have hsp₁ : s₁.reg Register.sp = s.reg Register.sp := hstill₁.regs _ (by decide)
        have hargs₁ : Arguments ρs s₁ vs := hargs.of_regs fun ρ hρ => hstill₁.regs ρ fun hmem =>
          hbase.registers.free ρ hρ (by rw [List.mem_singleton.mp hmem]; decide)
        refine Sim.bind (sim_apply hbase (sim_invoke hp n) hstands hpc₁ hargs₁ (hst.of_sp hsp₁)
          (hstill₁.agrees hag)) fun r w₂ s₂ h₂ => ?_
        have hra₂ : s₂.reg Register.ra = Machine.codeAddress (s.pc + 1) := h₂.ra.trans hra₁
        refine Sim.goTo (Machine.advances_jr ofName?_ra h₂.jr (hra₂ ▸ hhalt) (hra₂ ▸ hindex))
          fun s₃ hpc₃ hstill₃ => ?_
        have hreturned : ∀ v, s₃.reg Register.a0 = v → Returned S s w v w₂ s₃ := by
          intro v hv
          refine ⟨hpc₃, hv, ?_, ?_, hstill₃.agrees h₂.agrees, h₂.locals⟩
          · rw [hstill₃.regs _ (by decide), h₂.sp, hsp₁]
          · exact ((hstill₁.undisturbed (by decide) _).trans h₂.undisturbed (by rw [hsp₁])).trans
              (hstill₃.undisturbed (by decide) _) le_rfl
        cases r with
        | some v =>
          refine Sim.of_can (Meaning.can_pure _ _) (hreturned v ?_)
          rw [hstill₃.regs _ (by decide), h₂.result v rfl]
        | none => exact Sim.of_can (Meaning.can_guess _ _) (hreturned _ rfl)

end

end RvBackend.Simulation
