import RvBackend.Proofs.Lower.Lines
import RvBackend.Proofs.Simulation.Basic

/-! # What memory holds

The data of a program lies below the floor of the stack, and the visible entries of a function lie
in its frame, above everything that its code pushes. Words on the stack and assignments to variables
therefore do not get into each other's way.

* `Agrees`: input, output and global variables are those of the world.
* `Env`: the local variables of the world are in the frame.
* `Sim.push`, `Sim.pop`: words on the stack.
* `Env.resolve`: what a name stands for, `Meant.write`: assignments. -/

namespace RvBackend

/-- The first register for intermediate values. -/
def Asm.Register.t0 : Asm.Register := ⟨5, by decide⟩

/-- The second register for intermediate values. -/
def Asm.Register.t1 : Asm.Register := ⟨6, by decide⟩

namespace Simulation

open Asm (Register)
open Machine (State CodeAt Fetched opCount)
open Meaning (Evaluation World Can)

/-! ### Registers by their names -/

theorem ofName?_ra : Register.ofName? "ra" = some Register.ra := by decide
theorem ofName?_sp : Register.ofName? "sp" = some Register.sp := by decide
theorem ofName?_s0 : Register.ofName? "s0" = some Register.s0 := by decide
theorem ofName?_t0 : Register.ofName? "t0" = some Register.t0 := by decide
theorem ofName?_t1 : Register.ofName? "t1" = some Register.t1 := by decide
theorem ofName?_a0 : Register.ofName? "a0" = some Register.a0 := by decide

/-! ### Sites and worlds -/

/-- The data of a site lies below its floor, each label at a word of its own. -/
structure Site.Valid (S : Site) : Prop where
  floor : 2 ^ 20 ≤ S.floor
  low : ∀ {name : String} {a : UInt32}, S.code.dataLabels.lookup name = some a →
    a.toInt32.toInt < S.floor
  aligned : ∀ {name : String} {a : UInt32}, S.code.dataLabels.lookup name = some a →
    4 ∣ a.toInt32.toInt
  distinct : ∀ {name name' : String} {a : UInt32}, S.code.dataLabels.lookup name = some a →
    S.code.dataLabels.lookup name' = some a → name = name'

/-- The stack pointer is a multiple of four, and it is above the floor. -/
structure Stacked (S : Site) (s : State) : Prop where
  floor : S.floor ≤ (s.reg Register.sp).toInt
  aligned : 4 ∣ (s.reg Register.sp).toInt

/-- Input, output and the words of global variables are those of a world. -/
structure Agrees (S : Site) (w : World) (s : State) : Prop where
  input : s.input = w.input
  output : s.output = w.output
  globals : ∀ {name : String} {a : UInt32}, S.code.dataLabels.lookup name = some a →
    w.globals.lookup name = some (s.cell a.toInt32)

/-- The words from an address on stay as they are. -/
def Keeps (a : ℤ) (s s' : State) : Prop := ∀ b : Int32, a ≤ b.toInt → s'.cell b = s.cell b

/-- The words from an address on and the frame pointer stay as they are. -/
structure Undisturbed (a : ℤ) (s s' : State) : Prop where
  s0 : s'.reg Register.s0 = s.reg Register.s0
  keeps : Keeps a s s'

variable {α : Type} {S : Site} {m n : ℕ} {x : Evaluation α} {Q : α → World → State → Prop}
  {w w' : World} {s s' s'' : State}

theorem Stacked.of_sp (h : Stacked S s) (hsp : s'.reg Register.sp = s.reg Register.sp) :
    Stacked S s' :=
  ⟨hsp ▸ h.floor, hsp ▸ h.aligned⟩

theorem Keeps.trans {a b : ℤ} (h : Keeps a s s') (h' : Keeps b s' s'') (hab : b ≤ a) :
    Keeps a s s'' :=
  fun c hc => (h' c (hab.trans hc)).trans (h c hc)

theorem Keeps.mono {a b : ℤ} (h : Keeps a s s') (hab : a ≤ b) : Keeps b s s' :=
  fun c hc => h c (hab.trans hc)

theorem Still.keeps {rs : List Register} (h : Still rs s s') (a : ℤ) : Keeps a s s' :=
  fun b _ => h.cells b

theorem Undisturbed.trans {a b : ℤ} (h : Undisturbed a s s') (h' : Undisturbed b s' s'')
    (hab : b ≤ a) :
    Undisturbed a s s'' :=
  ⟨h'.s0.trans h.s0, h.keeps.trans h'.keeps hab⟩

theorem Still.undisturbed {rs : List Register} (h : Still rs s s') (hrs : Register.s0 ∉ rs)
    (a : ℤ) :
    Undisturbed a s s' :=
  ⟨h.regs _ hrs, h.keeps a⟩

theorem Poked.keeps {a v : Int32} {b : ℤ} (h : Poked a v s s') (hb : a.toInt < b) :
    Keeps b s s' := by
  intro c hc
  refine h.cells c ?_
  rintro rfl
  omega

theorem Still.agrees {rs : List Register} (h : Still rs s s') (hag : Agrees S w s) :
    Agrees S w s' :=
  ⟨h.input.trans hag.input, h.output.trans hag.output,
    fun hname => by rw [h.cells, hag.globals hname]⟩

theorem Poked.agrees {a v : Int32} (h : Poked a v s s') (hS : S.Valid) (ha : S.floor ≤ a.toInt)
    (hag : Agrees S w s) : Agrees S w s' := by
  refine ⟨h.input.trans hag.input, h.output.trans hag.output, fun {name} {b} hname => ?_⟩
  have hlow := hS.low hname
  rw [h.cells, hag.globals hname]
  intro heq
  rw [heq] at hlow
  omega

theorem Agrees.of_globals (hag : Agrees S w s) (hglobals : w'.globals = w.globals)
    (hinput : w'.input = w.input) (houtput : w'.output = w.output) : Agrees S w' s :=
  ⟨hag.input.trans hinput.symm, hag.output.trans houtput.symm,
    fun hname => hglobals ▸ hag.globals hname⟩

/-! ### Words on the stack -/

theorem add_offset_zero {x a : Int32} (h : x = a) : x + Int32.ofInt (0 : Int64).toInt = a :=
  (Int32.add_zero x).trans h

/-- A word has been put on the stack. -/
structure Pushed (S : Site) (s s' : State) (v : Int32) : Prop where
  sp : s'.reg Register.sp = s.reg Register.sp - 4
  top : s'.cell (s'.reg Register.sp) = v
  undisturbed : Undisturbed (s.reg Register.sp).toInt s s'
  stacked : Stacked S s'

/-- A word has been taken off the stack into a register. -/
structure Popped (ρ : Register) (s s' : State) : Prop where
  reg : s'.reg ρ = s.cell (s.reg Register.sp)
  sp : s'.reg Register.sp = s.reg Register.sp + 4
  still : Still [ρ, Register.sp] s s'

theorem toInt_sub_four {a : Int32} (h : -2 ^ 31 + 4 ≤ a.toInt) : (a - 4).toInt = a.toInt - 4 := by
  have hlt := a.toInt_lt
  have hfour : (4 : Int32).toInt = 4 := by decide
  rw [Int32.toInt_sub, hfour]
  exact Int.bmod_eq_of_le (by omega) (by omega)

theorem dvd_add_four {a : Int32} (h : 4 ∣ a.toInt) : 4 ∣ (a + 4).toInt := by
  have hfour : (4 : Int32).toInt = 4 := by decide
  rw [Int32.toInt_add, hfour, Int.bmod_def]
  split <;> omega

theorem Sim.push {r : String} {ρ : Register} (hr : Register.ofName? r = some ρ)
    (hρ : ρ ≠ Register.sp) (hS : S.Valid) (hcode : CodeAt S.code s.pc (Lower.push (.reg r)))
    (hst : Stacked S s) (hag : Agrees S w s)
    (h : ∀ s', s'.pc = s.pc + 2 → Pushed S s s' (s.reg ρ) → Agrees S w s' → Sim S n x Q s' w) :
    Sim S n x Q s w := by
  obtain ⟨haddi, hsw, -⟩ := hcode
  have hfloor := hS.floor
  have hsp := toInt_sub_four (a := s.reg Register.sp) (by have := hst.floor; omega)
  refine Sim.set (Machine.advances_addi ofName?_sp ofName?_sp haddi) (by decide)
    fun s₁ hpc hreg hstill hlow => ?_
  replace hreg : s₁.reg Register.sp = s.reg Register.sp - 4 := by
    rw [hreg, Int32.sub_eq_add_neg]
    rfl
  have hst₁ : Stacked S s₁ := by
    refine ⟨not_lt.mp hlow, ?_⟩
    rw [hreg, hsp]
    exact Int.dvd_sub hst.aligned (by norm_num)
  rw [← hpc] at hsw
  refine Sim.poke (Machine.advances_sw hr ofName?_sp hsw (add_offset_zero rfl) hst₁.aligned)
    fun s₂ hpc' hpoked => ?_
  have hlt : (s₁.reg Register.sp).toInt < (s.reg Register.sp).toInt := by rw [hreg, hsp]; omega
  refine h s₂ (by rw [hpc', hpc]) ⟨?_, ?_, ?_, ?_⟩ ?_
  · rw [hpoked.regs, hreg]
  · rw [hpoked.regs, hpoked.cell, hstill.regs _ (by simpa using hρ)]
  · exact (hstill.undisturbed (by decide) _).trans ⟨hpoked.regs _, hpoked.keeps hlt⟩ le_rfl
  · exact hst₁.of_sp (hpoked.regs _)
  · exact hpoked.agrees hS hst₁.floor (hstill.agrees hag)

theorem Sim.pop {r : String} {ρ : Register} (hr : Register.ofName? r = some ρ)
    (hρ : ρ ≠ Register.sp) (hzero : ρ.val ≠ 0) (hcode : CodeAt S.code s.pc (Lower.pop (.reg r)))
    (haligned : 4 ∣ (s.reg Register.sp).toInt)
    (h : ∀ s', s'.pc = s.pc + 2 → Popped ρ s s' → Sim S n x Q s' w) : Sim S n x Q s w := by
  obtain ⟨hlw, haddi, -⟩ := hcode
  refine Sim.set (Machine.advances_lw hr ofName?_sp hlw (add_offset_zero rfl) haligned) hzero
    fun s₁ hpc hreg hstill _ => ?_
  rw [← hpc] at haddi
  refine Sim.set (Machine.advances_addi ofName?_sp ofName?_sp haddi) (by decide)
    fun s₂ hpc' hreg' hstill' _ => ?_
  have hsp : s₁.reg Register.sp = s.reg Register.sp := hstill.regs _ (by simpa using hρ.symm)
  refine h s₂ (by rw [hpc', hpc]) ⟨?_, ?_, hstill.trans hstill'⟩
  · rw [hstill'.regs _ (by simpa using hρ), hreg]
  · rw [hreg', hsp]
    rfl

/-- A popped word leaves the stack pointer where it was before the word was pushed. -/
theorem Popped.sp_of_pushed {ρ : Register} {v : Int32} (h : Popped ρ s' s'')
    (hpushed : Pushed S s s' v) :
    s''.reg Register.sp = s.reg Register.sp := by
  rw [h.sp, hpushed.sp, Int32.sub_add_cancel]

/-! ### Frames -/

/-- The frame of a function that is being run: where it begins, how many bytes it has, and the
instruction with which the function begins to end. -/
structure Frame where
  fp : Int32
  size : ℤ
  exit : ℕ

/-- A frame above the floor. -/
structure Frame.Valid (F : Frame) (S : Site) : Prop where
  room : 8 ≤ F.size
  small : F.size ≤ 2032
  floor : S.floor ≤ F.fp.toInt - F.size
  aligned : 4 ∣ F.fp.toInt
  size_aligned : 4 ∣ F.size

/-- An entry that has a slot in a frame. -/
structure InFrame (F : Frame) (e : Entry) : Prop where
  level : e.isGlobal = false
  low : -F.size ≤ e.slot.toInt
  high : e.slot.toInt ≤ -12
  aligned : 4 ∣ e.slot.toInt

/-- The visible entries of a function, the last declared one first, have slots of their own. -/
structure Visible (F : Frame) (es : List Entry) : Prop where
  inFrame : ∀ e ∈ es, InFrame F e
  distinct : es.Pairwise fun e e' => e.slot.toInt ≠ e'.slot.toInt

/-- The address of an entry in a frame. -/
def Frame.address (F : Frame) (e : Entry) : Int32 := F.fp + Int32.ofInt e.slot.toInt

variable {F : Frame} {e : Entry} {es : List Entry}

theorem toInt_address (hS : S.Valid) (hF : F.Valid S) (he : InFrame F e) :
    (F.address e).toInt = F.fp.toInt + e.slot.toInt := by
  have hfloor := hF.floor
  have hsite := hS.floor
  have hfp := F.fp.toInt_lt
  have hlow := he.low
  have hhigh := he.high
  have hslot : (Int32.ofInt e.slot.toInt).toInt = e.slot.toInt :=
    Int32.toInt_ofInt_of_le (by omega) (by omega)
  rw [Frame.address, Machine.toInt_add_of_le (by omega) (by omega), hslot]

theorem address_ne (hS : S.Valid) (hF : F.Valid S) {e' : Entry} (he : InFrame F e)
    (he' : InFrame F e') (hne : e.slot.toInt ≠ e'.slot.toInt) : F.address e ≠ F.address e' := by
  intro heq
  have hint := congrArg Int32.toInt heq
  rw [toInt_address hS hF he, toInt_address hS hF he'] at hint
  omega

/-- The word of a local cell, if it has one, is in the slot of its entry. -/
structure CellOf (F : Frame) (s : State) (e : Entry) (c : String × Option Int32) : Prop where
  name : c.1 = e.name
  word : ∀ v ∈ c.2, s.cell (F.address e) = v

/-- A word that is put into the slot of an entry leaves the cells of the others alone. -/
theorem CellOf.poked {v : Int32} {e' : Entry} {c : String × Option Int32} (hcell : CellOf F s e' c)
    (hS : S.Valid) (hF : F.Valid S) (he : InFrame F e) (he' : InFrame F e')
    (hne : e'.slot.toInt ≠ e.slot.toInt) (hpoked : Poked (F.address e) v s s') : CellOf F s' e' c :=
  ⟨hcell.name, fun u hu => by rw [hpoked.cells _ (address_ne hS hF he' he hne), hcell.word u hu]⟩

/-- The local cells of a world are in a frame. -/
structure Env (F : Frame) (es : List Entry) (w : World) (s : State) : Prop where
  s0 : s.reg Register.s0 = F.fp
  below : (s.reg Register.sp).toInt ≤ F.fp.toInt - F.size
  cells : List.Forall₂ (CellOf F s) es w.locals

theorem forall₂_of_mem {α β : Type} {R R' : α → β → Prop} {as : List α} {bs : List β}
    (h : List.Forall₂ R as bs) (himp : ∀ a ∈ as, ∀ b, R a b → R' a b) : List.Forall₂ R' as bs :=
  ((List.forall₂_and_left _ _).mpr ⟨himp, h⟩).imp fun _ b hab => hab.1 b hab.2

/-- The local cells stay in their frame as long as nothing above the stack pointer changes. -/
theorem Env.undisturbed (hS : S.Valid) (hF : F.Valid S) (hes : Visible F es) (h : Env F es w s)
    (hund : Undisturbed (s.reg Register.sp).toInt s s')
    (hsp : (s'.reg Register.sp).toInt ≤ F.fp.toInt - F.size) (hlocals : w'.locals = w.locals) :
    Env F es w' s' := by
  refine ⟨hund.s0.trans h.s0, hsp, ?_⟩
  rw [hlocals]
  have hbelow := h.below
  refine forall₂_of_mem h.cells fun e he c hcell => ⟨hcell.name, fun v hv => ?_⟩
  have hin := hes.inFrame e he
  have hlow := hin.low
  rw [hund.keeps, hcell.word v hv]
  rw [toInt_address hS hF hin]
  omega

/-! ### Names -/

/-- The entries of tables, the last declared one first. -/
def entriesIn (tables : Scopes) : List Entry := tables.flatMap fun t => t.entries.reverse

/-- Global tables whose entries are data of a site. -/
def Known (S : Site) (globals : Scopes) : Prop :=
  ∀ t ∈ globals, ∀ e ∈ t.entries, e.isGlobal = true ∧ ∃ a, S.code.dataLabels.lookup e.name = some a

variable {tables globals : Scopes} {name : String}

theorem find?_append (tables globals : Scopes) (name : String) :
    Scopes.find? (tables ++ globals) name =
      ((entriesIn tables).find? (·.name == name)).or (Scopes.find? globals name) := by
  unfold Scopes.find? entriesIn Table.find?
  rw [List.findSome?_append, List.find?_flatMap]

theorem lookup_of_find? (h : List.Forall₂ (CellOf F s) es w.locals)
    (hfind : es.find? (·.name == name) = some e) :
    ∃ c, w.locals.lookup name = some c ∧ ∀ v ∈ c, s.cell (F.address e) = v := by
  generalize w.locals = locals at h
  induction h with
  | nil => cases hfind
  | @cons e' c es cs hcell _ ih =>
    obtain ⟨key, cell⟩ := c
    obtain rfl : key = e'.name := hcell.name
    rw [List.find?_cons] at hfind
    rw [List.lookup_cons]
    split at hfind
    · next heq =>
      obtain rfl := eq_of_beq heq
      cases hfind
      exact ⟨cell, by simp, hcell.word⟩
    · next hne =>
      rw [beq_false_of_ne (ne_of_beq_false hne).symm]
      exact ih hfind

theorem lookup_of_find?_none (h : List.Forall₂ (CellOf F s) es w.locals)
    (hfind : es.find? (·.name == name) = none) : w.locals.lookup name = none := by
  generalize w.locals = locals at h
  induction h with
  | nil => rfl
  | @cons e' c es cs hcell _ ih =>
    obtain ⟨key, cell⟩ := c
    obtain rfl : key = e'.name := hcell.name
    rw [List.find?_cons] at hfind
    rw [List.lookup_cons]
    split at hfind
    · cases hfind
    · next hne =>
      rw [beq_false_of_ne (ne_of_beq_false hne).symm]
      exact ih hfind

/-- What a name stands for: a cell in the frame, or else a global variable. -/
inductive Meant (S : Site) (F : Frame) (es : List Entry) (w : World) (s : State) (name : String)
    (e : Entry) :
    Int32 → Prop
  | frame (hfind : es.find? (·.name == name) = some e) (hframe : InFrame F e) {c : Option Int32}
      (hlookup : w.locals.lookup name = some c) (hword : ∀ v ∈ c, s.cell (F.address e) = v) :
      Meant S F es w s name e (F.address e)
  | data (hlevel : e.isGlobal = true) (hname : e.name = name) (hnone : w.locals.lookup name = none)
      {a : UInt32} (hlabel : S.code.dataLabels.lookup name = some a) : Meant S F es w s name e
      a.toInt32

theorem Env.resolve {loc : Location} (h : Env F es w s) (hes : Visible F es)
    (htables : entriesIn tables = es) (hknown : Known S globals)
    (hresolve : Lower.resolve (tables ++ globals) loc name = .ok e) :
    ∃ a, Meant S F es w s name e a := by
  have hfind := (Lower.resolve_eq_ok hresolve).1
  rw [find?_append, htables] at hfind
  cases hlocal : es.find? (·.name == name) with
  | some e' =>
    rw [hlocal] at hfind
    obtain rfl : e' = e := Option.some.inj hfind
    obtain ⟨c, hlookup, hword⟩ := lookup_of_find? h.cells hlocal
    exact ⟨_, .frame hlocal (hes.inFrame e' (List.mem_of_find?_eq_some hlocal)) hlookup hword⟩
  | none =>
    rw [hlocal, Option.none_or] at hfind
    obtain ⟨rfl, t, ht, he⟩ := Lower.find?_mem hfind
    obtain ⟨hlevel, a, ha⟩ := hknown t ht e he
    exact ⟨_, .data hlevel rfl (lookup_of_find?_none h.cells hlocal) ha⟩

theorem Meant.aligned {a : Int32} (h : Meant S F es w s name e a) (hS : S.Valid) (hF : F.Valid S) :
    4 ∣ a.toInt := by
  cases h with
  | frame _ hframe _ _ =>
    rw [toInt_address hS hF hframe]
    exact Int.dvd_add hF.aligned hframe.aligned
  | data _ _ _ hlabel => exact hS.aligned hlabel

theorem Meant.unique {a a' : Int32} (h : Meant S F es w s name e a)
    (h' : Meant S F es w' s' name e a') :
    a = a' := by
  cases h with
  | frame _ hframe _ _ =>
    cases h' with
    | frame => rfl
    | data hlevel _ _ _ => cases hframe.level.symm.trans hlevel
  | data hlevel _ _ hlabel =>
    cases h' with
    | frame _ hframe _ _ => cases hframe.level.symm.trans hlevel
    | data _ _ _ hlabel' => rw [Option.some.inj (hlabel.symm.trans hlabel')]

theorem Meant.read {a : Int32} (h : Meant S F es w s name e a) (hag : Agrees S w s) :
    Can (Meaning.readVariable name) w (.ok (s.cell a)) w := by
  cases h with
  | frame _ _ hlookup hword => exact Meaning.can_readVariable hlookup fun v hv => (hword v hv).symm
  | data _ _ hnone hlabel => exact Meaning.can_readVariable_global hnone (hag.globals hlabel)

/-- The address of what a name stands for is put into a register. -/
theorem Sim.loadAddress {a : Int32} (h : Meant S F es w s name e a) (hs0 : s.reg Register.s0 = F.fp)
    (hcode : CodeAt S.code s.pc (Lower.loadAddress Lower.t0 e))
    (hnext : ∀ s', s'.pc = s.pc + 1 → s'.reg Register.t0 = a → Still [Register.t0] s s' →
      Sim S n x Q s' w) :
    Sim S n x Q s w := by
  cases h with
  | frame _ hframe _ _ =>
    rw [Lower.loadAddress, hframe.level] at hcode
    obtain ⟨haddi, -⟩ := hcode
    refine Sim.set (Machine.advances_addi ofName?_t0 ofName?_s0 haddi) (by decide)
      fun s' hpc hreg hstill _ => hnext s' hpc ?_ hstill
    rw [hreg, hs0]
    rfl
  | data hlevel hname _ hlabel =>
    rw [Lower.loadAddress, hlevel, hname] at hcode
    obtain ⟨hla, -⟩ := hcode
    exact Sim.set (Machine.advances_la ofName?_t0 hla hlabel) (by decide)
      fun s' hpc hreg hstill _ => hnext s' hpc hreg hstill

theorem opCount_loadAddress (e : Entry) : opCount (Lower.loadAddress Lower.t0 e) = 1 := by
  unfold Lower.loadAddress
  split <;> rfl

/-! ### Assignments -/

theorem lookup_assigned_self {β : Type} {b : β} : ∀ {cells : List (String × β)},
    (cells.lookup name).isSome → (Meaning.assigned name b cells).lookup name = some b
  | [], h => by cases h
  | (key, c) :: cells, h => by
    rw [Meaning.assigned]
    by_cases heq : name = key
    · rw [if_pos heq, List.lookup_cons, heq, beq_self_eq_true]
    · rw [List.lookup_cons, beq_false_of_ne heq] at h
      rw [if_neg heq, List.lookup_cons, beq_false_of_ne heq]
      exact lookup_assigned_self h

theorem lookup_assigned_of_ne {β : Type} {b : β} {name' : String} (hne : name' ≠ name) :
    ∀ cells : List (String × β), (Meaning.assigned name b cells).lookup name' = cells.lookup name'
  | [] => rfl
  | (key, c) :: cells => by
    rw [Meaning.assigned]
    split
    · next heq =>
      subst heq
      rw [List.lookup_cons, List.lookup_cons, beq_false_of_ne hne]
    · rw [List.lookup_cons, List.lookup_cons, lookup_assigned_of_ne hne cells]

theorem cells_assigned {v : Int32} (hS : S.Valid) (hF : F.Valid S)
    (hpoked : Poked (F.address e) v s s') (hes : Visible F es)
    (hfind : es.find? (·.name == name) = some e) {locals : List (String × Option Int32)}
    (h : List.Forall₂ (CellOf F s) es locals) :
    List.Forall₂ (CellOf F s') es (Meaning.assigned name (some v) locals) := by
  obtain ⟨hframe, hdistinct⟩ := hes
  have he := hframe e (List.mem_of_find?_eq_some hfind)
  induction h with
  | nil => cases hfind
  | @cons e' c es cs hcell hcells ih =>
    obtain ⟨key, cell⟩ := c
    obtain rfl : key = e'.name := hcell.name
    rw [List.forall_mem_cons] at hframe
    rw [List.pairwise_cons] at hdistinct
    rw [List.find?_cons] at hfind
    rw [Meaning.assigned]
    split at hfind
    · next heq =>
      obtain rfl : e'.name = name := eq_of_beq heq
      obtain rfl : e' = e := Option.some.inj hfind
      rw [if_pos rfl]
      refine .cons ⟨rfl, fun u hu => ?_⟩ (forall₂_of_mem hcells fun e'' he'' c hcell'' => ?_)
      · rw [hpoked.cell]
        exact Option.some.inj hu
      · exact hcell''.poked hS hF he (hframe.2 e'' he'') (hdistinct.1 e'' he'').symm hpoked
    · next hne =>
      rw [if_neg (ne_of_beq_false hne).symm]
      have hmem := List.mem_of_find?_eq_some hfind
      exact .cons (hcell.poked hS hF he hframe.1 (hdistinct.1 e hmem) hpoked)
        (ih hfind hframe.2 hdistinct.2)

/-- An assignment to what a name stands for. -/
theorem Meant.write {a v : Int32} (h : Meant S F es w s name e a) (hS : S.Valid) (hF : F.Valid S)
    (hes : Visible F es) (henv : Env F es w s) (hag : Agrees S w s) (hpoked : Poked a v s s') :
    Env F es (w.write name v) s' ∧ Agrees S (w.write name v) s' := by
  have hfloor := hF.floor
  have hsp : (s'.reg Register.sp).toInt ≤ F.fp.toInt - F.size := by
    rw [hpoked.regs]; exact henv.below
  cases h with
  | frame hfind hframe hlookup _ =>
    have hwrite : w.write name v =
        { w with locals := Meaning.assigned name (some v) w.locals } := by
      rw [World.write, hlookup]
      rfl
    have haddr := toInt_address hS hF hframe
    have hlow := hframe.low
    rw [hwrite]
    refine ⟨⟨(hpoked.regs _).trans henv.s0, hsp, cells_assigned hS hF hpoked hes hfind henv.cells⟩,
      ?_⟩
    exact (hpoked.agrees hS (by omega) hag).of_globals rfl rfl rfl
  | @data hlevel hname hnone a hlabel =>
    have hwrite : w.write name v = { w with globals := Meaning.assigned name v w.globals } := by
      rw [World.write, hnone]
      rfl
    have hlow := hS.low hlabel
    rw [hwrite]
    refine ⟨⟨(hpoked.regs _).trans henv.s0, hsp, ?_⟩, (hpoked.input.trans hag.input),
      hpoked.output.trans hag.output, fun {name'} {b} hlabel' => ?_⟩
    · refine forall₂_of_mem henv.cells fun e' he' c hcell => ⟨hcell.name, fun u hu => ?_⟩
      have hin := hes.inFrame e' he'
      have haddr := toInt_address hS hF hin
      have hlow' := hin.low
      rw [hpoked.cells, hcell.word u hu]
      intro heq
      rw [heq] at haddr
      omega
    · by_cases heq : name' = name
      · subst heq
        rw [hlabel, Option.some.injEq] at hlabel'
        subst hlabel'
        rw [hpoked.cell]
        exact lookup_assigned_self (by rw [hag.globals hlabel]; rfl)
      · rw [lookup_assigned_of_ne heq, hag.globals hlabel', hpoked.cells]
        intro hcells
        have hsame : b = a := by rw [← b.toUInt32_toInt32, hcells, a.toUInt32_toInt32]
        subst hsame
        exact heq (hS.distinct hlabel' hlabel)

end Simulation

end RvBackend
