import RvBackend.Proofs.Lower.ReadBack
import RvBackend.Proofs.Machine.Reflected
import RvBackend.Proofs.Simulation.Function

/-! # Programs

The listing that is read from the text of a program is a place where all of its functions stand and
all of its data lies, so the machine shows what the program comes to.

* `Proper` is what is assumed of a program.
* `Loaded`: the code of a program as the machine has it.
* `Loaded.sim`: from the entry, the machine shows what the program comes to. -/

namespace RvBackend.Simulation

open Asm (Register Reflects Printable labelsOf opsOf dataBase dataEnd behind)
open Lower (LoweredAll LoweredProgram LoweredFunction Progress routines mainFunction)
open Machine (Listing State CodeAt)
open Meaning (World)

/-! ### Programs and their code -/

/-- What is assumed of a program: its names can be told apart, the registers of arguments are of no
other use, and exactly the entries of its own scope are global. -/
structure Proper (abi : Abi) (p : Program) : Prop where
  named : Lower.WellNamed abi p
  registers : ∃ ρs, ArgumentRegisters abi ρs
  globals : ∀ e ∈ Table.entriesOf p.scope, e.isGlobal = true
  locals : ∀ f ∈ routines abi p, ∀ e ∈ f.entries, e.isGlobal = false
  unplaced : Unplaced p

/-- The size of each frame is a number of 64 bits. -/
def Roomy (abi : Abi) (p : Program) : Prop :=
  ∀ f ∈ routines abi p, 8 + abi.slotSize.toInt * f.entries.length ≤ 2 ^ 63 - 16

theorem Proper.admissible {abi : Abi} {p : Program} (h : Proper abi p) (hroom : Roomy abi p) :
    Lower.Admissible abi p := by
  obtain ⟨ρs, hρs⟩ := h.registers
  refine ⟨fun r hr => ?_, h.named, fun f hf e he hlevel => ?_, h.unplaced, hroom⟩
  · obtain ⟨i, hi, rfl⟩ := List.getElem_of_mem hr
    have hname := hρs.names.get hi (hρs.names.length_eq ▸ hi)
    rw [List.get_eq_getElem] at hname
    rw [hname]
    rfl
  · cases (h.locals f hf e he).symm.trans hlevel

/-- The code of a program as the machine has it. -/
structure Loaded (abi : Abi) (p : Program) (listing : Listing) : Prop where
  valid : abi.Valid
  proper : Proper abi p
  roomy : Roomy abi p
  code : ∃ code q, LoweredProgram abi p code q ∧ Printable code ∧ Reflects code listing
  small : listing.instructions.size < 2 ^ 28

theorem loaded_of_code {s : Settings} {p : Program} {code : Asm.Program} (hvalid : s.problems = [])
    (hp : Proper s.abi p) (hroom : Roomy s.abi p)
    (hcode : (Lower.lowerProgram s.abi p).code = .ok code)
    (hsmall : (opsOf code.codeLines).length < 2 ^ 28) :
    ∃ text listing, Lower.codeText (Lower.lowerProgram s.abi p).code = .ok text ∧
      Listing.parse text = .ok listing ∧ Loaded s.abi p listing := by
  obtain ⟨q, hlow, -⟩ := Lower.loweredProgram_of_code hcode
  have habi := abi_valid hvalid
  have hprintable := (hp.admissible hroom).printable habi.frame_pos habi.slot_pos.le hlow
  obtain ⟨text, listing, htext, hparse, hreflects⟩ := hprintable.parse
  refine ⟨text, listing, (Lower.codeText_eq_ok_iff hcode).mpr htext, hparse, habi, hp, hroom,
    ⟨code, q, hlow, hprintable, hreflects⟩, ?_⟩
  rw [← Array.length_toList, hreflects.instructions.length_eq]
  exact hsmall

/-- A listing with the names that its program goes by; its stack may go down to the end of its
data. -/
def siteOf (abi : Abi) (listing : Listing) : Site where
  names := ⟨abi.entry, abi.printHelper, abi.readHelper⟩
  code := listing
  floor := dataEnd listing

variable {abi : Abi} {p : Program} {listing : Listing}

/-! ### Functions -/

theorem codeAt_lowered {globals : Scopes} {fs : List Function} {gs : List Asm.Function}
    {q q' : Progress} (h : LoweredAll abi globals fs q gs q') : ∀ {i : ℕ},
    CodeAt listing i (gs.flatMap Asm.Function.codeLines) → ∀ f ∈ fs, ∃ start g r r',
      listing.codeLabels.lookup f.name = some start ∧ LoweredFunction abi globals f r g r' ∧
        CodeAt listing start g.lines := by
  induction h with
  | nil => exact fun _ f hf => absurd hf List.not_mem_nil
  | @cons f fs g gs q q' q'' head tail ih =>
    intro i hcode
    rw [List.flatMap_cons, Machine.codeAt_append] at hcode
    obtain ⟨⟨hlabel, hlines⟩, htail⟩ := hcode
    refine List.forall_mem_cons.mpr ⟨⟨i, g, q, q', ?_, head, hlines⟩, ih htail⟩
    obtain ⟨_, _, _, _, _, _, _, _, -, -, -, -, hname, -⟩ := head
    rw [← hname]
    exact hlabel

theorem Loaded.housed (h : Loaded abi p listing) :
    Housed (siteOf abi listing) abi (Scopes.enter [] p.scope) p := by
  obtain ⟨code, q, hlow, hprintable, hreflects⟩ := h.code
  have hlines := hreflects.codeAt hprintable.nodup.of_append_right
  refine ⟨fun f hf => ?_, fun name start hlookup hdot => ?_⟩
  · obtain ⟨start, g, r, r', hlabel, hlowered, hcode⟩ := codeAt_lowered hlow.functions hlines f hf
    exact ⟨start, hlabel, ⟨g, r, r', hlowered, hcode⟩, h.proper.locals f hf,
      fun c hc => Lower.head_ne_dot_of_isIdentifier (h.proper.named.callees f hf c hc).1,
      h.roomy f hf⟩
  · exact hlow.functions.name_of_label (hreflects.mem_labels hlookup) hdot

/-! ### Data -/

theorem Loaded.site_valid (h : Loaded abi p listing) (hend : dataEnd listing < 2 ^ 31) :
    (siteOf abi listing).Valid := by
  obtain ⟨code, q, -, -, hreflects⟩ := h.code
  have hbase : dataBase.toNat = 2 ^ 20 := by decide
  have hfloor : (siteOf abi listing).floor = 2 ^ 20 + 4 * code.dataNames.length := by
    show dataEnd listing = _
    rw [dataEnd, hreflects.length_dataLabels, hbase]
    norm_num
  have haddress : ∀ {name : String} {a : UInt32}, listing.dataLabels.lookup name = some a →
      ∃ k, code.dataNames[k]? = some name ∧ k < code.dataNames.length ∧
      a.toInt32.toInt = 2 ^ 20 + 4 * k := by
    intro name a hlookup
    obtain ⟨k, hk, rfl⟩ := hreflects.address hlookup
    have hlt := (List.getElem?_eq_some_iff.mp hk).1
    exact ⟨k, hk, hlt, (hreflects.toInt_address hend hlt).2⟩
  refine ⟨by omega, fun hlookup => ?_, fun hlookup => ?_, fun hlookup hlookup' => ?_⟩
  · obtain ⟨k, -, hlt, haddr⟩ := haddress hlookup
    omega
  · obtain ⟨k, -, -, haddr⟩ := haddress hlookup
    omega
  · obtain ⟨k, hk, -, haddr⟩ := haddress hlookup
    obtain ⟨k', hk', -, haddr'⟩ := haddress hlookup'
    obtain rfl : k = k' := by omega
    exact Option.some.inj (hk.symm.trans hk')

theorem Loaded.known (h : Loaded abi p listing) :
    Known (siteOf abi listing) (Scopes.enter [] p.scope) := by
  obtain ⟨code, q, hlow, hprintable, hreflects⟩ := h.code
  intro t ht e he
  have hmem : e ∈ Table.entriesOf p.scope := by
    cases hscope : p.scope with
    | none => rw [hscope] at ht; cases ht
    | some t' =>
      rw [hscope] at ht
      obtain rfl : t = t' := List.mem_singleton.mp ht
      exact he
  refine ⟨h.proper.globals e hmem, hreflects.lookup_data hprintable.nodup.of_append_left ?_⟩
  rw [hlow.data.1.mem_iff]
  exact List.mem_map_of_mem hmem

/-- The words of data are those that global variables begin with. -/
theorem perm_dataWords {code : Asm.Program} {q : Progress} (h : LoweredProgram abi p code q) :
    code.dataWords.Perm ((Table.entriesOf p.scope).map Meaning.globalCell) := by
  obtain ⟨storages, hall, hglobals, hconstants⟩ := Lower.globalStorages_eq_ok h.storages
  rw [Asm.Program.dataWords, hglobals, hconstants]
  refine Lower.perm_storages (fun e g hg => ?_) (fun e c hc => ?_) hall
  · obtain ⟨hkind, rfl⟩ := hg
    rw [Meaning.globalCell, hkind]
  · obtain ⟨hkind, hvalue, hlabel, -⟩ := hc
    rw [Meaning.globalCell, hkind, hvalue, hlabel]
    rfl

theorem Loaded.agrees (h : Loaded abi p listing) (hend : dataEnd listing < 2 ^ 31)
    (input : Machine.Input) (output : Sink) (pc : ℕ) :
    Agrees (siteOf abi listing) (World.initial p input output)
      ((State.initial listing input output).start pc) := by
  obtain ⟨code, q, hlow, hprintable, hreflects⟩ := h.code
  refine ⟨by simp [State.start, State.initial, World.initial], by
    simp [State.start, State.initial, World.initial], fun {name} {a} hlookup => ?_⟩
  obtain ⟨k, hk, rfl⟩ := hreflects.address hlookup
  rw [← code.map_fst_dataWords, List.getElem?_map, Option.map_eq_some_iff] at hk
  obtain ⟨⟨_, v⟩, hword, rfl⟩ := hk
  have hcell : ((State.initial listing input output).start pc).cell (behind dataBase k).toInt32 =
      v := by
    rw [State.cell, UInt32.toUInt32_toInt32, State.word]
    simp only [State.start, State.memory_setReg]
    exact hreflects.word hend hword
  rw [hcell]
  refine lookup_of_mem ?_ ((perm_dataWords hlow).mem_iff.mp (List.mem_of_getElem? hword))
  refine ((perm_dataWords hlow).map Prod.fst).nodup_iff.mp ?_
  rw [code.map_fst_dataWords]
  exact hprintable.nodup.of_append_left

/-! ### Runs from the entry -/

theorem Loaded.base (h : Loaded abi p listing) (hend : dataEnd listing < 2 ^ 31)
    {ρs : List Register} (hρs : ArgumentRegisters abi ρs) :
    Base (siteOf abi listing) abi (Scopes.enter [] p.scope) ρs where
  site := h.site_valid hend
  printHelper := rfl
  readHelper := rfl
  valid := h.valid
  registers := hρs
  known := h.known
  small := h.small

theorem mainFunction_mem (abi : Abi) (p : Program) : mainFunction abi p ∈ routines abi p :=
  List.mem_append_right _ (List.mem_singleton_self _)

theorem Loaded.entry (h : Loaded abi p listing) :
    ∃ pc, listing.codeLabels.lookup abi.entry = some pc := by
  obtain ⟨pc, hstands⟩ := h.housed.stands _ (mainFunction_mem abi p)
  exact ⟨pc, hstands.label⟩

/-- **Programs**: from the entry on, the machine shows what the program comes to. -/
theorem Loaded.sim (h : Loaded abi p listing) (hend : dataEnd listing ≤ Machine.stackTop.toInt)
    {pc : ℕ} (hpc : listing.codeLabels.lookup abi.entry = some pc) (input : Machine.Input)
    (output : Sink) (n : ℕ) :
    Sim (siteOf abi listing) n (Meaning.program abi p n)
      (Left (siteOf abi listing) ((State.initial listing input output).start pc)
        (World.initial p input output))
      ((State.initial listing input output).start pc) (World.initial p input output) := by
  have htop : Machine.stackTop.toInt = 2 ^ 31 - 16 := by decide
  obtain ⟨ρs, hρs⟩ := h.proper.registers
  obtain ⟨start, hstands⟩ := h.housed.stands _ (mainFunction_mem abi p)
  obtain rfl : pc = start := Option.some.inj (hpc.symm.trans hstands.label)
  have hbase := h.base (by omega) hρs
  have hsp := Machine.reg_start_sp (State.initial listing input output) pc
  refine sim_apply hbase (sim_invoke hbase h.housed n) hstands rfl .nil ⟨?_, ?_⟩
    (h.agrees (by omega) input output pc)
  · rw [hsp]
    exact hend
  · rw [hsp, htop]
    norm_num

end RvBackend.Simulation
