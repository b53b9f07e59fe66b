import RvBackend.Proofs.Lower.Supported
import RvBackend.Proofs.Lower.Wraparound

/-! # Programs that there is code for

Code is made for a program exactly if its names are free, its entries are words, each place in it is
supported, and the frames of its functions are small enough, or so large that their size wraps
around.

* `Program.Supported` is what is asked of a program besides the size of its frames.
* `exists_frameSize_iff`: the frames that are accepted.
* `succeeds_programSteps_iff`: what generation checks of a program. -/

namespace RvBackend

/-- What is asked of a program: names that are not taken, global variables and constants of a word
each, and places that are supported. -/
structure Program.Supported (abi : Abi) (p : Program) : Prop where
  functions : ∀ f ∈ p.functions, Lower.Untaken abi f.name
  globals : ∀ e ∈ Table.entriesOf p.scope, Lower.Untaken abi e.name
  storage : ∀ e ∈ Table.entriesOf p.scope, e.Supported ∧ (e.kind = .variable ∨ e.kind = .constant)
  occurrences : ∀ f ∈ Lower.routines abi p, ∀ o ∈ f.occurrences (Table.namesOf p.scope),
    o.Supported abi

instance (abi : Abi) (p : Program) : Decidable (p.Supported abi) :=
  decidable_of_iff ((∀ f ∈ p.functions, Lower.Untaken abi f.name) ∧
      (∀ e ∈ Table.entriesOf p.scope, Lower.Untaken abi e.name) ∧
      (∀ e ∈ Table.entriesOf p.scope, e.Supported ∧ (e.kind = .variable ∨ e.kind = .constant)) ∧
      ∀ f ∈ Lower.routines abi p, ∀ o ∈ f.occurrences (Table.namesOf p.scope), o.Supported abi)
    ⟨fun ⟨hf, hg, hs, ho⟩ => ⟨hf, hg, hs, ho⟩, fun ⟨hf, hg, hs, ho⟩ => ⟨hf, hg, hs, ho⟩⟩

/-- The checks that generation makes of a program. -/
structure Program.Lowers (abi : Abi) (p : Program) : Prop where
  names : Lower.checkNames abi p = .ok ()
  storage : ∃ storages, Lower.globalStorages p = .ok storages
  occurrences : ∀ f ∈ Lower.routines abi p, ∀ o ∈ f.occurrences (Table.namesOf p.scope),
    o.Lowers abi

/-- The frame of a function has room for its slots below the words of its caller. All sizes are
multiples of 16, as 2032 is. -/
def Function.FrameFits (abi : Abi) (f : Function) : Prop :=
  8 + abi.slotSize.toInt * f.entries.length ≤ 2032

instance (abi : Abi) (f : Function) : Decidable (f.FrameFits abi) :=
  inferInstanceAs (Decidable (8 + abi.slotSize.toInt * f.entries.length ≤ 2032))

namespace Lower

open Asm

variable {abi : Abi} {n : ℕ}

/-! ### Frames -/

theorem exists_frameSize_of_fits (hvalid : abi.Valid) (h : 8 + abi.slotSize.toInt * n ≤ 2032)
    (name : String) (loc : Location) :
    ∃ size, frameSize ⟨abi, name⟩ loc (lowered abi ({} : Progress).cursor n) = .ok size := by
  have hslot : 0 ≤ abi.slotSize.toInt := hvalid.slot_pos.le
  have hnonneg : 0 ≤ abi.slotSize.toInt * n := Int.mul_nonneg hslot (Int.natCast_nonneg _)
  have hcursor : (lowered abi ({} : Progress).cursor n).toInt = -(8 + abi.slotSize.toInt * n) := by
    rw [toInt_lowered hslot (by rw [toInt_start]; omega), toInt_start]
    omega
  have hround : roundUp 16 (8 + abi.slotSize.toInt * n) ≤ 2032 :=
    roundUp_least (by norm_num) (by norm_num) h
  refine ⟨_, if_pos (Int64.le_iff_toInt_le.mpr ?_)⟩
  rw [toInt_max, toInt_alignUp_cursor (by omega) (by omega), hcursor, Int.neg_neg]
  exact max_le hvalid.frame_le hround

/-- **The frames that are accepted**: small ones, and those whose size wraps around. -/
theorem exists_frameSize_iff (hvalid : abi.Valid) (hslots : abi.slotSize.toInt * n < 2 ^ 63)
    {name : String} {loc : Location} :
    (∃ size, frameSize ⟨abi, name⟩ loc (lowered abi ({} : Progress).cursor n) = .ok size) ↔
      8 + abi.slotSize.toInt * n ≤ 2032 ∨ Wraps abi n := by
  have hslot : 0 ≤ abi.slotSize.toInt := hvalid.slot_pos.le
  constructor
  · rintro ⟨size, h⟩
    by_cases hroom : 8 + abi.slotSize.toInt * n ≤ 2 ^ 63 - 16
    · obtain ⟨-, hle, hmax⟩ := @toInt_frameSize_lowered ⟨abi, name⟩ _ _ _ h hslot hroom
      exact .inl (hle.trans hmax)
    · exact .inr ⟨hslots, hroom⟩
  · rintro (h | h)
    · exact exists_frameSize_of_fits hvalid h name loc
    · exact ⟨_, frameSize_of_wrap h hvalid name loc⟩

/-! ### Functions -/

theorem succeeds_finishFunction_iff {ctx : Context} {loc : Location} {isGlobal : Bool}
    {body : List Line} {p : Progress} :
    Succeeds (finishFunction ctx loc isGlobal body) p ↔
      ∃ size, frameSize ctx loc p.cursor = .ok size := by
  rw [finishFunction]
  refine Succeeds.bind_iff_right succeeds_get fun p' q hget => ?_
  obtain ⟨rfl, rfl⟩ := made_get_iff.mp hget
  refine (Succeeds.bind_iff_left fun _ _ _ => ?_).trans succeeds_lift_iff
  exact (Succeeds.bind_iff_left fun _ _ _ => succeeds_pure _).mpr succeeds_note

theorem checkParameters_eq_ok_iff {f : RvBackend.Function} : checkParameters abi f = .ok () ↔
    (Table.entriesOf f.scope).countP (·.kind = .parameter) ≤ abi.maxArgs := by
  simp only [checkParameters]
  split <;> simp [*]

theorem succeeds_lowerFunction_iff {globals : Scopes} {visible : List String}
    {f : RvBackend.Function} {p : Progress} (hvalid : abi.Valid)
    (hslots : abi.slotSize.toInt * f.entries.length < 2 ^ 63) (hshows : Shows visible globals) :
    Succeeds (lowerFunction abi globals f) p ↔
      (∀ o ∈ f.occurrences visible, o.Lowers abi) ∧
      (f.FrameFits abi ∨ Wraps abi f.entries.length) := by
  rw [lowerFunction, Function.occurrences, List.forall_mem_cons, and_assoc]
  refine Succeeds.bind_iff_right succeeds_note fun _ _ _ => ?_
  -- the parameters are counted once more when their scope is installed
  refine (Succeeds.bind_iff (P := checkParameters abi f = .ok ())
    (succeeds_lift_iff.trans Unique.exists_iff) fun _ q hq => ?_).trans
    (and_iff_right_of_imp fun h => checkParameters_eq_ok_iff.mpr h.1.2)
  refine Succeeds.bind_iff_right ⟨(), _, made_modify_iff.mpr rfl⟩ fun _ q' hbegin => ?_
  obtain rfl := made_modify_iff.mp hbegin
  refine Succeeds.bind_iff succeeds_install_iff fun made p' hscope => ?_
  obtain ⟨scope, fill⟩ := made
  refine Succeeds.bind_iff (succeeds_optionalBlock_iff (hshows.install hscope))
    fun body p'' hbody => ?_
  have hgives := (made_install_gives hscope).trans (made_optionalBlock_gives hbody)
  rw [← List.length_append] at hgives
  rw [succeeds_finishFunction_iff, hgives.cursor]
  exact exists_frameSize_iff hvalid hslots

/-! ### Programs -/

theorem exists_globalStorage_iff {loc : Location} {e : Entry} :
    (∃ storage, globalStorage loc e = .ok storage) ↔
    e.Lowers ∧ (e.kind = .variable ∨ e.kind = .constant) := by
  rw [globalStorage, Entry.Lowers]
  by_cases hs : e.type.isScalar = true
  · simp only [hs, if_true, true_and]
    cases hkind : e.kind with
    | constant =>
      cases hv : e.value with
      | none => simp [ok_throw_iff]
      | some v =>
        refine exists_ok_map_iff.trans (exists_immediate_iff.trans ?_)
        simp
    | parameter => simp [ok_throw_iff]
    | other n => simp [ok_throw_iff]
    | _ => simp [pure, Except.pure]
  · simp [hs, ok_bind_iff, ok_throw_iff]

theorem exists_mapM_iff {ε α β : Type} {f : α → Except ε β} : ∀ {xs : List α},
    (∃ ys, xs.mapM f = .ok ys) ↔ ∀ x ∈ xs, ∃ y, f x = .ok y
  | [] => by simp [pure, Except.pure]
  | x :: xs => by
    rw [List.mapM_cons, List.forall_mem_cons]
    exact exists_ok_bind_iff Iff.rfl fun _ _ => exists_ok_map_iff.trans exists_mapM_iff

theorem exists_globalStorages_iff {p : RvBackend.Program} :
    (∃ storages, globalStorages p = .ok storages) ↔
    ∀ e ∈ Table.entriesOf p.scope, e.Lowers ∧ (e.kind = .variable ∨ e.kind = .constant) := by
  rw [globalStorages]
  refine exists_ok_map_iff.trans (exists_mapM_iff.trans ?_)
  simp only [exists_globalStorage_iff]

/-- The global entries are words, so they can be referred to. -/
theorem shows_of_globalStorages {p : RvBackend.Program}
    (h : ∃ storages, globalStorages p = .ok storages) :
    Shows (Table.namesOf p.scope) (Scopes.enter [] p.scope) := by
  have hlowers := exists_globalStorages_iff.mp h
  have hnone : Shows [] [] := ⟨by simp, by simp⟩
  simpa using hnone.enter fun e he => (hlowers e he).1.1

theorem succeeds_atStage_iff {α : Type} {stage : Stage} {x : Lowering α} {p : Progress} :
    Succeeds (atStage stage x) p ↔ Succeeds x p := by
  simp only [Succeeds, made_atStage_iff]

theorem exists_code_iff {p : RvBackend.Program} :
    (∃ code, (lowerProgram abi p).code = .ok code) ↔ Succeeds (programSteps abi p) {} := by
  constructor
  · rintro ⟨code, h⟩
    exact ⟨code, _, Prod.ext h rfl⟩
  · rintro ⟨code, q, h⟩
    exact ⟨code, congrArg Prod.fst h⟩

theorem succeeds_programSteps_iff {p : RvBackend.Program} (hvalid : abi.Valid)
    (hslots : ∀ f ∈ routines abi p, abi.slotSize.toInt * f.entries.length < 2 ^ 63) :
    Succeeds (programSteps abi p) {} ↔
      p.Lowers abi ∧ ∀ f ∈ routines abi p, f.FrameFits abi ∨ Wraps abi f.entries.length := by
  have hparts :
      (p.Lowers abi ∧ ∀ f ∈ routines abi p, f.FrameFits abi ∨ Wraps abi f.entries.length) ↔
      (checkNames abi p = .ok () ∧ ∃ storages, globalStorages p = .ok storages) ∧
        ∀ f ∈ routines abi p, (∀ o ∈ f.occurrences (Table.namesOf p.scope), o.Lowers abi) ∧
          (f.FrameFits abi ∨ Wraps abi f.entries.length) := by
    constructor
    · rintro ⟨⟨hnames, hstorage, hplaces⟩, hframes⟩
      exact ⟨⟨hnames, hstorage⟩, fun f hf => ⟨hplaces f hf, hframes f hf⟩⟩
    · rintro ⟨⟨hnames, hstorage⟩, hall⟩
      exact ⟨⟨hnames, hstorage, fun f hf => (hall f hf).1⟩, fun f hf => (hall f hf).2⟩
  rw [routines, List.forall_mem_append, List.forall_mem_singleton] at hslots
  rw [hparts, programSteps, routines, List.forall_mem_append, List.forall_mem_singleton]
  refine Succeeds.bind_iff (succeeds_atStage_iff.trans ?_) fun storages q hstorages => ?_
  · refine Succeeds.bind_iff (succeeds_lift_iff.trans Unique.exists_iff) fun _ _ _ => ?_
    refine (Succeeds.bind_iff_left fun _ _ _ => ?_).trans succeeds_lift_iff
    exact (Succeeds.bind_iff_left fun _ _ _ => succeeds_pure _).mpr succeeds_note
  have hshows : Shows (Table.namesOf p.scope) (Scopes.enter [] p.scope) := by
    have hsteps := made_atStage_iff.mp hstorages
    simp only [made_bind_iff, made_lift_iff] at hsteps
    obtain ⟨_, _, -, made, _, ⟨hmade, -⟩, -⟩ := hsteps
    exact shows_of_globalStorages ⟨made, hmade⟩
  refine Succeeds.bind_iff (succeeds_mapM_iff fun f hf _ => succeeds_atStage_iff.trans
    (succeeds_lowerFunction_iff hvalid (hslots.1 f hf) hshows)) fun functions q' _ => ?_
  refine Succeeds.bind_iff (succeeds_atStage_iff.trans ?_) fun body q'' hbody =>
    succeeds_atStage_iff.trans ?_
  · refine Succeeds.bind_iff_right ⟨(), _, made_modify_iff.mpr rfl⟩ fun _ _ _ => ?_
    refine (succeeds_optionalBlock_iff hshows).trans ?_
    rw [Function.occurrences, List.forall_mem_cons]
    exact (and_iff_right ⟨fun _ he => absurd he List.not_mem_nil, Nat.zero_le _⟩).symm
  · have hsteps := made_atStage_iff.mp hbody
    simp only [made_bind_iff, beginFunction, made_modify_iff] at hsteps
    obtain ⟨_, _, rfl, hblock⟩ := hsteps
    have hcursor : q''.cursor = lowered abi ({} : Progress).cursor
        (mainFunction abi p).entries.length :=
      (made_optionalBlock_gives hblock).cursor
    refine (Succeeds.bind_iff_left fun _ _ _ => ?_).trans ?_
    · refine (Succeeds.bind_iff_left fun _ _ _ => ?_).mpr succeeds_get
      exact (Succeeds.bind_iff_left fun _ _ _ => succeeds_pure _).mpr succeeds_note
    · rw [succeeds_finishFunction_iff, hcursor]
      exact exists_frameSize_iff hvalid hslots.2

/-- **The checks of generation are what is asked** of a program that was read. -/
theorem program_lowers_iff_supported {p : RvBackend.Program} (hp : p.Decoded) :
    p.Lowers abi ↔ p.Supported abi := by
  have hplaces : ∀ f ∈ routines abi p, AllDecoded f.occurrences := by
    rw [routines, List.forall_mem_append, List.forall_mem_singleton]
    exact ⟨hp.functions, .cons (fun _ _ he => absurd he List.not_mem_nil) hp.body⟩
  have hoccurrences : (∀ f ∈ routines abi p, ∀ o ∈ f.occurrences (Table.namesOf p.scope),
      o.Lowers abi) ↔ ∀ f ∈ routines abi p, ∀ o ∈ f.occurrences (Table.namesOf p.scope),
      o.Supported abi :=
    forall₂_congr fun f hf => forall₂_congr fun o ho => lowers_iff_supported (hplaces f hf _ o ho)
  have hstorage : (∃ storages, globalStorages p = .ok storages) ↔
      ∀ e ∈ Table.entriesOf p.scope, e.Supported ∧ (e.kind = .variable ∨ e.kind = .constant) :=
    exists_globalStorages_iff.trans
      (forall₂_congr fun e he => and_congr_left' (entry_lowers_iff_supported (hp.scope e he)))
  constructor
  · rintro ⟨hnames, hstorages, hall⟩
    obtain ⟨hfunctions, hglobals⟩ := checkNames_eq_ok_iff.mp hnames
    exact ⟨hfunctions, hglobals, hstorage.mp hstorages, hoccurrences.mp hall⟩
  · rintro ⟨hfunctions, hglobals, hstorages, hall⟩
    exact ⟨checkNames_eq_ok_iff.mpr ⟨hfunctions, hglobals⟩, hstorage.mpr hstorages,
      hoccurrences.mpr hall⟩

/-- **Programs that code is made for**: those that are supported and whose frames are accepted.
Unless the size of a frame wraps around, those are the supported programs with frames of at most
2032 bytes. -/
theorem accepted_iff_supported {s : Settings} {bytes : List UInt8} {p : RvBackend.Program}
    (hvalid : s.problems = []) (hdecode : RvBackend.Program.decode bytes = .ok p)
    (hslots : ∀ f ∈ routines s.abi p, s.abi.slotSize.toInt * f.entries.length < 2 ^ 63) :
    ((∃ code, (lowerProgram s.abi p).code = .ok code) ↔
      p.Supported s.abi ∧ ∀ f ∈ routines s.abi p, f.FrameFits s.abi ∨
      Wraps s.abi f.entries.length) ∧
    ((∀ f ∈ routines s.abi p, ¬ Wraps s.abi f.entries.length) →
      ((∃ code, (lowerProgram s.abi p).code = .ok code) ↔
        p.Supported s.abi ∧ ∀ f ∈ routines s.abi p, f.FrameFits s.abi)) := by
  have hexact : (∃ code, (lowerProgram s.abi p).code = .ok code) ↔
      p.Supported s.abi ∧ ∀ f ∈ routines s.abi p, f.FrameFits s.abi ∨
      Wraps s.abi f.entries.length := by
    rw [exists_code_iff, succeeds_programSteps_iff (abi_valid hvalid) hslots,
      program_lowers_iff_supported (decoded_of_decode hdecode)]
  refine ⟨hexact, fun hwraps => hexact.trans (and_congr_right' (forall₂_congr fun f hf => ?_))⟩
  exact or_iff_left (hwraps f hf)

/-! ### A program that was read -/

/-- A program that prints a variable with its sign changed. -/
def negation : List UInt8 :=
  ("\x7b\"kind\":\"Program\",\"body\":\x7b\"kind\":\"CompoundStatement\"," ++
    "\"scope\":[\x7b\"name\":\"x\",\"kind\":\"variable\",\"type\":\"integer\",\"level\":1\x7d]," ++
    "\"statements\":[\x7b\"kind\":\"Print\",\"target\":\x7b\"kind\":\"UnaryOp\",\"op\":\"-\"," ++
    "\"operand\":\x7b\"kind\":\"VariableRef\",\"name\":\"x\"\x7d\x7d\x7d]\x7d\x7d").toUTF8.toList

/-- With slots of four bytes its frame is small enough; with slots of almost 2^63 bytes, code is
made all the same. -/
theorem decode_negation : ∃ p, RvBackend.Program.decode negation = .ok p ∧ p.Supported {} ∧
    (∀ f ∈ routines {} p, f.FrameFits {}) ∧ (lowerProgram wideSlots.abi p).code.isOk = true ∧
    (∀ f ∈ routines wideSlots.abi p, f.entries.length = 1) := by
  have hany : (RvBackend.Program.decode negation).toOption.any (fun p => decide (p.Supported {} ∧
      (∀ f ∈ routines {} p, f.FrameFits {}) ∧ (lowerProgram wideSlots.abi p).code.isOk = true ∧
      (∀ f ∈ routines wideSlots.abi p, f.entries.length = 1))) = true := by decide +kernel
  obtain ⟨p, hdecode, htest⟩ := exists_ok_of_any hany
  exact ⟨p, hdecode, of_decide_eq_true htest⟩

theorem negation_accepted : ∃ p code, RvBackend.Program.decode negation = .ok p ∧ p.Supported {} ∧
    (lowerProgram {} p).code = .ok code := by
  obtain ⟨p, hdecode, hsupported, hframes, -⟩ := decode_negation
  have hslots : ∀ f ∈ routines {} p, ({} : Abi).slotSize.toInt * f.entries.length < 2 ^ 63 := by
    intro f hf
    have hfits : 8 + ({} : Abi).slotSize.toInt * f.entries.length ≤ 2032 := hframes f hf
    omega
  have hwraps : ∀ f ∈ routines {} p, ¬ Wraps {} f.entries.length :=
    fun f hf h => h.room ((hframes f hf).trans (by norm_num))
  have haccepted := accepted_iff_supported (s := {}) (by decide +kernel) hdecode hslots
  obtain ⟨code, hcode⟩ := (haccepted.2 hwraps).mpr ⟨hsupported, hframes⟩
  exact ⟨p, code, hdecode, hsupported, hcode⟩

/-- With such slots, the frame is far too large, though the slots themselves take less than 2^63
bytes. -/
theorem wide_negation_accepted :
    wideSlots.problems = [] ∧ ∃ p code, RvBackend.Program.decode negation = .ok p ∧
    (∀ f ∈ routines wideSlots.abi p, wideSlots.abi.slotSize.toInt * f.entries.length < 2 ^ 63) ∧
    (∃ f ∈ routines wideSlots.abi p, ¬ f.FrameFits wideSlots.abi) ∧
    (lowerProgram wideSlots.abi p).code = .ok code := by
  obtain ⟨p, hdecode, -, -, hok, hlength⟩ := decode_negation
  obtain ⟨code, hcode⟩ := exists_ok_of_isOk hok
  have hmain : mainFunction wideSlots.abi p ∈ routines wideSlots.abi p :=
    List.mem_append_right _ (List.mem_singleton_self _)
  refine ⟨by decide +kernel, p, code, hdecode, fun f hf => ?_, ⟨_, hmain, ?_⟩, hcode⟩
  · rw [hlength f hf]
    decide
  · rw [Function.FrameFits, hlength _ hmain]
    decide

end Lower

end RvBackend
