import RvBackend.Lower.Emit
import RvBackend.Proofs.Lower.Labels

/-! # Generated text is read back

The text of generated code is read by the machine as what was generated: the same instructions in
order, the labels of code with the instructions behind them, and the data at consecutive words.

* `WellNamed`: the names of a program are identifiers that can be told apart.
* `generated_text_reads_back`: the text of a well-named program is read back. -/

namespace RvBackend.Lower

open Asm
open Machine (Listing)

/-! ### Names -/

theorem any_eq_isSome_ofInt? (n : ℤ) :
    (decide (0 ≤ n) && decide (n < 32)) = (Register.ofInt? n).isSome := by
  unfold Register.ofInt?
  split
  · next h =>
    split
    · next hn =>
      simp only [hn, decide_true, Bool.true_and, Option.isSome_some, decide_eq_true_eq]
      omega
    · next hn => simp [hn]
  · next h => simp only [Option.isSome_none, Bool.and_eq_false_iff, decide_eq_false_iff_not]; omega

/-- The generator and the machine agree on the names of registers. -/
theorem isRegisterName_eq (name : String) :
    isRegisterName name = (Register.ofName? name).isSome := by
  have hkeys : ∀ key, key ∈ registerNames ↔ key ∈ Register.named.map Prod.fst := by
    have hsub : registerNames ⊆ Register.named.map Prod.fst := by decide
    have hsup : Register.named.map Prod.fst ⊆ registerNames := by decide
    exact fun key => ⟨fun h => hsub h, fun h => hsup h⟩
  cases hlookup : Register.named.lookup name with
  | some r =>
    have hmem : name ∈ registerNames :=
      (hkeys name).mpr (List.mem_map.mpr ⟨(name, r), lookup_mem hlookup, rfl⟩)
    have hcontains : registerNames.contains name = true := List.contains_iff_mem.mpr hmem
    simp only [isRegisterName, hcontains, Register.ofName?, hlookup, Bool.true_or,
      Option.isSome_some]
  | none =>
    have hnot : registerNames.contains name = false := by
      rw [← Bool.not_eq_true, List.contains_iff_mem, hkeys name]
      exact lookup_eq_none_iff.mp hlookup
    simp only [isRegisterName, hnot, Register.ofName?, hlookup, Bool.false_or]
    by_cases hx : ∃ digits, name.toList = 'x' :: digits
    · obtain ⟨digits, hdigits⟩ := hx
      rw [isRegisterNumber, hdigits]
      cases hread : Text.readInt64 digits with
      | none => simp [hread]
      | some n => simpa [hread] using any_eq_isSome_ofInt? n
    · have hnumber : isRegisterNumber name = false := by
        unfold isRegisterNumber
        split
        · next digits hdigits => exact absurd ⟨digits, hdigits⟩ hx
        · rfl
      rw [hnumber]
      split
      · next digits hdigits => exact absurd ⟨digits, hdigits⟩ hx
      · rfl

/-- An identifier that no register has. -/
def IsName (name : String) : Prop := IsIdentifier name ∧ isRegisterName name = false

instance (name : String) : Decidable (IsName name) :=
  inferInstanceAs (Decidable (IsIdentifier name ∧ isRegisterName name = false))

theorem IsName.isSymbol {name : String} (h : IsName name) : IsSymbol name := by
  have hregister := h.2
  rw [isRegisterName_eq, Option.isSome_eq_false_iff, Option.isNone_iff_eq_none] at hregister
  exact isSymbol_of_identifier h.1 hregister

theorem newline_notMem_of_isIdentifier {name : String} (h : IsIdentifier name) :
    '\n' ∉ name.toList :=
  h.isWord.notMem (by decide)

theorem head_ne_dot_of_isIdentifier {name : String} (h : IsIdentifier name) :
    name.toList.head? ≠ some '.' := by
  obtain ⟨c, cs, hname, hc⟩ := h.head
  rw [hname, List.head?_cons, ne_eq, Option.some.injEq]
  rintro rfl
  exact absurd hc (by decide)

/-- The names of a program are identifiers, those that are seen in all of its code are not names of
registers, and no two functions or global entries share one. -/
structure WellNamed (abi : Abi) (p : RvBackend.Program) : Prop where
  functions : ∀ f ∈ p.functions, IsName f.name
  globals : ∀ e ∈ Table.entriesOf p.scope, IsName e.name
  locals : ∀ f ∈ routines abi p, ∀ e ∈ f.entries, IsIdentifier e.name
  callees : ∀ f ∈ routines abi p, ∀ c ∈ f.callees, IsName c
  printHelper : IsName abi.printHelper
  readHelper : IsName abi.readHelper
  entry : IsName abi.entry
  distinct : (p.functions.map (·.name) ++ (Table.entriesOf p.scope).map (·.name)).Nodup
  file : Uncommented p.file.toList

/-! ### Names that are taken -/

theorem forM_eq_ok_iff {ε α : Type} {f : α → Except ε Unit} : ∀ {xs : List α},
    xs.forM f = .ok () ↔ ∀ x ∈ xs, f x = .ok ()
  | [] => by simp [pure, Except.pure]
  | x :: xs => by
    show (f x >>= fun _ => xs.forM f) = .ok () ↔ _
    rw [List.forall_mem_cons, ok_bind_iff, ← forM_eq_ok_iff]
    constructor
    · rintro ⟨_, hx, hxs⟩
      exact ⟨hx, hxs⟩
    · rintro ⟨hx, hxs⟩
      exact ⟨(), hx, hxs⟩

/-- A name that is not taken: neither by the entry nor by a helper nor by a register. -/
def Untaken (abi : Abi) (name : String) : Prop :=
  name ≠ abi.printHelper ∧ name ≠ abi.readHelper ∧ name ≠ abi.entry ∧ isRegisterName name = false

instance (abi : Abi) (name : String) : Decidable (Untaken abi name) :=
  inferInstanceAs (Decidable (_ ∧ _ ∧ _ ∧ _))

theorem untaken_iff {abi : Abi} {name : String} :
    Untaken abi name ↔ reservation? abi name = none ∧ isRegisterName name = false := by
  unfold Untaken reservation?
  split
  · next h => simp; tauto
  · next h =>
    rw [not_or] at h
    simp [h]

theorem checkFunctionName_eq_ok_iff {abi : Abi} {f : RvBackend.Function} :
    checkFunctionName abi f = .ok () ↔ Untaken abi f.name := by
  rw [checkFunctionName, untaken_iff]
  cases reservation? abi f.name <;> simp

theorem checkGlobalName_eq_ok_iff {abi : Abi} {loc : Location} {e : Entry} :
    checkGlobalName abi loc e = .ok () ↔ Untaken abi e.name := by
  rw [checkGlobalName, untaken_iff]
  cases reservation? abi e.name <;> simp

/-- **No function and no global entry has a name that is taken.** -/
theorem checkNames_eq_ok_iff {abi : Abi} {p : RvBackend.Program} : checkNames abi p = .ok () ↔
    (∀ f ∈ p.functions, Untaken abi f.name) ∧ ∀ e ∈ Table.entriesOf p.scope,
      Untaken abi e.name := by
  have hfunctions : p.functions.forM (checkFunctionName abi) = .ok () ↔ ∀ f ∈ p.functions,
      Untaken abi f.name := by
    simp only [forM_eq_ok_iff, checkFunctionName_eq_ok_iff]
  have hglobals : (Table.entriesOf p.scope).forM (checkGlobalName abi p.loc) = .ok () ↔
      ∀ e ∈ Table.entriesOf p.scope, Untaken abi e.name := by
    simp only [forM_eq_ok_iff, checkGlobalName_eq_ok_iff]
  rw [checkNames, ok_bind_iff, ← hfunctions, ← hglobals]
  constructor
  · rintro ⟨_, h, h'⟩
    exact ⟨h, h'⟩
  · exact fun h => ⟨(), h⟩

/-- The names of the global entries and of all functions differ if those that the program gives
do. -/
theorem names_nodup {abi : Abi} {p : RvBackend.Program}
    (h : (p.functions.map (·.name) ++ (Table.entriesOf p.scope).map (·.name)).Nodup)
    (hcheck : checkNames abi p = .ok ()) :
    ((Table.entriesOf p.scope).map (·.name) ++ (routines abi p).map (·.name)).Nodup := by
  have hcomm := List.nodup_append_comm.mp h
  rw [routines, List.map_append, ← List.append_assoc]
  refine List.Nodup.append hcomm (List.nodup_singleton _) ?_
  intro name hmem hentry
  obtain rfl : name = abi.entry := by simpa [mainFunction] using hentry
  obtain ⟨hfunctions, hglobals⟩ := checkNames_eq_ok_iff.mp hcheck
  rcases List.mem_append.mp hmem with hmem | hmem
  · obtain ⟨e, he, hname⟩ := List.mem_map.mp hmem
    exact (hglobals e he).2.2.1 hname
  · obtain ⟨f, hf, hname⟩ := List.mem_map.mp hmem
    exact (hfunctions f hf).2.2.1 hname

/-! ### Global storage -/

/-- The storage of a global entry: room for a variable, or the word of a constant. -/
def StorageOf (e : Entry) : GlobalVariable ⊕ GlobalConstant → Prop
  | .inl g => e.kind = .variable ∧ g = { label := e.name }
  | .inr c => e.kind = .constant ∧ e.value = some c.value ∧ c.label = e.name ∧
      -2 ^ 31 ≤ c.value ∧ c.value < 2 ^ 31

theorem globalStorage_eq_ok {loc : Location} {e : Entry} {storage : GlobalVariable ⊕ GlobalConstant}
    (h : globalStorage loc e = .ok storage) : StorageOf e storage := by
  simp only [globalStorage] at h
  split at h
  rotate_left
  · cases h
  split at h
  · next hkind =>
    cases h
    exact ⟨hkind, rfl⟩
  · next hkind =>
    split at h
    · cases h
    · next v hv =>
      rw [ok_bind_iff] at h
      obtain ⟨n, hn, h⟩ := h
      cases h
      exact ⟨hkind, hv, rfl, (toInt_immediate hn).2⟩
  · cases h

theorem mapM_globalStorage {loc : Location} : ∀ {es : List Entry}
    {storages : List (GlobalVariable ⊕ GlobalConstant)},
    es.mapM (globalStorage loc) = .ok storages →
    List.Forall₂ StorageOf es storages
  | [], _, h => by
    cases h
    exact .nil
  | e :: es, _, h => by
    simp only [List.mapM_cons, ok_bind_iff, ok_pure_iff] at h
    obtain ⟨storage, hstorage, storages, hstorages, rfl⟩ := h
    exact .cons (globalStorage_eq_ok hstorage) (mapM_globalStorage hstorages)

theorem globalStorages_eq_ok {p : RvBackend.Program} {globals : List GlobalVariable}
    {constants : List GlobalConstant} (h : globalStorages p = .ok (globals, constants)) :
    ∃ storages, List.Forall₂ StorageOf (Table.entriesOf p.scope) storages ∧
      globals = storages.filterMap Sum.getLeft? ∧ constants = storages.filterMap Sum.getRight? := by
  simp only [globalStorages, ok_bind_iff, ok_pure_iff, Prod.mk.injEq] at h
  obtain ⟨storages, hstorages, hglobals, hconstants⟩ := h
  exact ⟨storages, mapM_globalStorage hstorages, hglobals.symm, hconstants.symm⟩

/-- Variables and then constants: what is made of them is, in another order, what is made of the
entries. -/
theorem perm_storages {β : Type} {ofVariable : GlobalVariable → β} {ofConstant : GlobalConstant → β}
    {ofEntry : Entry → β} (hvariable : ∀ e g, StorageOf e (.inl g) → ofVariable g = ofEntry e)
    (hconstant : ∀ e c, StorageOf e (.inr c) → ofConstant c = ofEntry e) {es : List Entry}
    {storages : List (GlobalVariable ⊕ GlobalConstant)} (h : List.Forall₂ StorageOf es storages) :
    ((storages.filterMap Sum.getLeft?).map ofVariable ++
      (storages.filterMap Sum.getRight?).map ofConstant).Perm
      (es.map ofEntry) := by
  induction h with
  | nil => exact .nil
  | @cons e storage es storages head _ ih =>
    cases storage with
    | inl g =>
      rw [List.map_cons, ← hvariable e g head]
      exact ih.cons (ofVariable g)
    | inr c =>
      rw [List.map_cons, ← hconstant e c head]
      exact List.perm_middle.trans (ih.cons (ofConstant c))

/-- The data of a program: room for its variables, and the words of its constants. -/
theorem LoweredProgram.data {abi : Abi} {p : RvBackend.Program} {code : Asm.Program} {q : Progress}
    (h : LoweredProgram abi p code q) :
    code.dataNames.Perm ((Table.entriesOf p.scope).map (·.name)) ∧
      (∀ g ∈ code.globals, g.size = 4 ∧ g.align = 4) ∧
      ∀ c ∈ code.constants, -2 ^ 31 ≤ c.value ∧ c.value < 2 ^ 31 := by
  obtain ⟨storages, hall, hglobals, hconstants⟩ := globalStorages_eq_ok h.storages
  have hentry : ∀ storage ∈ storages, ∃ e, StorageOf e storage := by
    intro storage hmem
    obtain ⟨i, hi, rfl⟩ := List.getElem_of_mem hmem
    exact ⟨_, hall.get (hall.length_eq ▸ hi) hi⟩
  refine ⟨?_, ?_, ?_⟩
  · rw [Program.dataNames, hglobals, hconstants]
    exact perm_storages (fun e g hg => congrArg (·.label) hg.2) (fun e c hc => hc.2.2.1) hall
  · intro g hg
    rw [hglobals, List.mem_filterMap] at hg
    obtain ⟨storage, hmem, hleft⟩ := hg
    obtain ⟨e, he⟩ := hentry storage hmem
    cases storage with
    | inl g' =>
      cases hleft
      obtain ⟨-, rfl⟩ := he
      exact ⟨rfl, rfl⟩
    | inr c => cases hleft
  · intro c hc
    rw [hconstants, List.mem_filterMap] at hc
    obtain ⟨storage, hmem, hright⟩ := hc
    obtain ⟨e, he⟩ := hentry storage hmem
    cases storage with
    | inl g => cases hright
    | inr c' =>
      cases hright
      exact he.2.2.2

/-! ### Lines of generated code -/

/-- Names that are read back, and numbers of 12 bits. -/
def Names.symbols : Names := .narrow IsSymbol fun name => '\n' ∉ name.toList

theorem isSymbol_fresh (n : ℕ) : IsSymbol (".L" ++ Text.decimal ((n : ℤ) + 1)) := by
  refine @isSymbol_of_dot _ ('L' :: Text.decimalChars ((n : ℤ) + 1)) (by simp [Text.decimal]) ?_
  have hall : ∀ c ∈ ['-', '0', '1', '2', '3', '4', '5', '6', '7', '8', '9'],
      isPlain c = true ∧ c ≠ '(' := by decide
  exact List.forall_mem_cons.mpr ⟨by decide, fun c hc => hall c (Text.mem_decimalChars hc)⟩

theorem isSymbol_exit {f : String} (h : ∀ c ∈ f.toList, isPlain c = true ∧ c ≠ '(') :
    IsSymbol (".L" ++ f ++ "_exit") := by
  refine @isSymbol_of_dot _ ('L' :: (f.toList ++ ['_', 'e', 'x', 'i', 't'])) (by simp) ?_
  exact List.forall_mem_cons.mpr ⟨by decide, List.forall_mem_append.mpr ⟨h, by decide⟩⟩

theorem isSymbol_exit_of_symbol {f : String} (h : IsSymbol f) :
    IsSymbol (".L" ++ f ++ "_exit") := by
  refine isSymbol_exit fun c hc => ⟨h.plain c hc, ?_⟩
  rintro rfl
  exact h.open_paren hc

theorem LabelForm.isSymbol {name : String} (h : LabelForm .symbols name) : IsSymbol name := by
  cases h with
  | fresh n => exact isSymbol_fresh n
  | exit hf => exact isSymbol_exit_of_symbol hf
  | symbol h => exact h

theorem ofName?_workRegisters : ∀ r ∈ workRegisters, (Register.ofName? r).isSome = true := by decide

theorem OperandForm.readable {abi : Abi} (hregs : ∀ r ∈ abi.registers, (Register.ofName? r).isSome)
    {m : String} {o : Operand} (h : OperandForm abi .symbols m o) : o.Readable ∧ o.Encodable m := by
  cases h with
  | work h => exact ⟨ofName?_workRegisters _ h, trivial⟩
  | argument h => exact ⟨hregs _ h, trivial⟩
  | mem h hb =>
    have hshort := h
    simp only [Names.symbols, Names.narrow] at hshort
    exact ⟨⟨ofName?_workRegisters _ hb, by omega, by omega⟩, h⟩
  | label h => exact ⟨h.isSymbol, trivial⟩
  | @short n h hm =>
    have hshort := h
    simp only [Names.symbols, Names.narrow] at hshort
    refine ⟨⟨by omega, by omega⟩, ?_⟩
    show if m = "li" then _ else _
    rw [if_neg hm]
    exact h
  | word h hm =>
    refine ⟨h, ?_⟩
    show if m = "li" then _ else _
    rw [if_pos hm]
    exact h

theorem isWord_mnemonics : ∀ m ∈ mnemonics, m.toList ≠ [] ∧ (∀ c ∈ m.toList, isPlain c = true) ∧
    m.toList.head? ≠ some '.' := by decide

theorem LineForm.loadable {abi : Abi} (hregs : ∀ r ∈ abi.registers, (Register.ofName? r).isSome)
    {l : Line} (h : LineForm abi .symbols l) : Loadable l := by
  cases h with
  | remark h =>
    refine .remark fun hmem => ?_
    obtain ⟨name, hname, hmem'⟩ := h hmem
    exact hname hmem'
  | fresh n => exact .label (isSymbol_fresh n)
  | exit hf => exact .label (isSymbol_exit_of_symbol hf)
  | op hm ho =>
    obtain ⟨hne, hplain, hdot⟩ := isWord_mnemonics _ hm
    exact .op ⟨hne, hplain⟩ hdot fun o hmem => (ho o hmem).readable hregs

/-! ### Programs -/

/-- What the generator is assumed to be given for its text to be read back. -/
structure Admissible (abi : Abi) (p : RvBackend.Program) : Prop where
  registers : ∀ r ∈ abi.registers, (Register.ofName? r).isSome
  named : WellNamed abi p
  /-- Code loads the address of an entry of level zero by its name. -/
  levels : ∀ f ∈ routines abi p, ∀ e ∈ f.entries, e.isGlobal → isRegisterName e.name = false
  unplaced : Unplaced p
  room : ∀ f ∈ routines abi p, 8 + abi.slotSize.toInt * f.entries.length ≤ 2 ^ 63 - 16

theorem Admissible.admitsAll {abi : Abi} {p : RvBackend.Program} {code : Asm.Program} {q : Progress}
    (h : Admissible abi p) (hframe : 0 < abi.frameSize.toInt) (hslot : 0 ≤ abi.slotSize.toInt)
    (hlow : LoweredProgram abi p code q) :
    Names.symbols.AdmitsAll abi (Scopes.enter [] p.scope) (routines abi p) := by
  have hsmall := hlow.functions.room_le hslot h.room
  refine ⟨hframe, ?_, h.named.printHelper.isSymbol, h.named.readHelper.isSymbol, ?_, ?_⟩
  · refine Names.Sees.enter (fun t ht => absurd ht List.not_mem_nil) fun e he => ?_
    have hname := h.named.globals e he
    refine ⟨newline_notMem_of_isIdentifier hname.1, fun _ => hname.isSymbol, ?_⟩
    rw [h.unplaced e he]
    exact ⟨by decide, by decide⟩
  · intro f hf
    rcases List.mem_append.mp hf with hf | hf
    · exact (h.named.functions f hf).isSymbol
    · obtain rfl := List.mem_singleton.mp hf
      exact h.named.entry.isSymbol
  · intro f hf
    refine ⟨fun e he => newline_notMem_of_isIdentifier (h.named.locals f hf e he),
      fun e he hlevel => ?_, fun c hc => ?_, fun slot hmem => ?_⟩
    · exact IsName.isSymbol ⟨h.named.locals f hf e he, h.levels f hf e he hlevel⟩
    · have hname := h.named.callees f hf c hc
      exact ⟨hname.isSymbol, newline_notMem_of_isIdentifier hname.1⟩
    · have hle := hsmall f hf
      have hbounds := mem_functionSlots hslot (by omega) hmem
      exact ⟨by omega, by omega⟩

theorem LoweredAll.names {abi : Abi} {globals : Scopes} {fs : List RvBackend.Function}
    {gs : List Asm.Function} {p q : Progress} (h : LoweredAll abi globals fs p gs q) :
    gs.map (·.name) = fs.map (·.name) := by
  induction h with
  | nil => rfl
  | cons head _ ih =>
    obtain ⟨_, _, _, _, _, _, _, _, -, -, -, -, hname, -⟩ := head
    rw [List.map_cons, List.map_cons, ih, hname]

/-- Generated code can be printed so that it is read back. -/
theorem Admissible.printable {abi : Abi} {p : RvBackend.Program} {code : Asm.Program} {q : Progress}
    (h : Admissible abi p) (hframe : 0 < abi.frameSize.toInt) (hslot : 0 ≤ abi.slotSize.toInt)
    (hlow : LoweredProgram abi p code q) : Printable code := by
  obtain ⟨hdata, hglobals, hconstants⟩ := hlow.data
  have hadmits := h.admitsAll hframe hslot hlow
  have hname : ∀ name ∈ code.dataNames ++ (routines abi p).map (·.name), IsName name := by
    refine List.forall_mem_append.mpr ⟨fun name hmem => ?_, fun name hmem => ?_⟩
    · obtain ⟨e, he, rfl⟩ := List.mem_map.mp (hdata.mem_iff.mp hmem)
      exact h.named.globals e he
    · obtain ⟨f, hf, rfl⟩ := List.mem_map.mp hmem
      rcases List.mem_append.mp hf with hf | hf
      · exact h.named.functions f hf
      · obtain rfl := List.mem_singleton.mp hf
        exact h.named.entry
  refine ⟨hlow.file ▸ h.named.file, hglobals, hconstants, ?_, ?_, ?_⟩
  · exact fun name hmem => (hname name (List.mem_append_left _ hmem)).isSymbol
  · intro l hl
    obtain ⟨g, hg, hl⟩ := List.mem_flatMap.mp hl
    rcases List.mem_cons.mp hl with rfl | hl
    · refine .label (hname g.name (List.mem_append_right _ ?_)).isSymbol
      rw [← hlow.functions.names]
      exact List.mem_map_of_mem hg
    · exact (formed_functions hlow.functions hadmits g hg l hl).loadable h.registers
  · refine hlow.functions.labels_nodup ?_ fun name hmem =>
      head_ne_dot_of_isIdentifier (hname name hmem).1
    exact (hdata.append_right _).nodup_iff.mpr (names_nodup h.named.distinct hlow.names)

theorem codeText_eq_ok_iff {abi : Abi} {p : RvBackend.Program} {code : Asm.Program} {text : String}
    (hcode : (lowerProgram abi p).code = .ok code) :
    codeText (lowerProgram abi p).code = .ok text ↔ code.text? = some text := by
  have hcode' : Except.mapError EmitError.failure (lowerProgram abi p).code = .ok code := by
    rw [hcode]; rfl
  rw [codeText, hcode', ok_bind_iff]
  simp only [Except.ok.injEq, exists_eq_left']
  split
  · next text' htext =>
    rw [htext, ok_pure_iff, Option.some.injEq]
  · next htext =>
    rw [htext, ok_throw_iff]
    simp

/-- **Generated text is read back**: it can be printed, the machine accepts it, and the listing
holds the instructions, the labels and the data that were generated, and nothing else. -/
theorem generated_text_reads_back {s : Settings} {p : RvBackend.Program} {code : Asm.Program}
    (hvalid : s.problems = []) (hp : Admissible s.abi p)
    (hcode : (lowerProgram s.abi p).code = .ok code) :
    ∃ text listing, codeText (lowerProgram s.abi p).code = .ok text ∧
      Listing.parse text = .ok listing ∧
      Reflects code listing := by
  obtain ⟨q, hlow, -⟩ := loweredProgram_of_code hcode
  have habi := abi_valid hvalid
  obtain ⟨text, listing, htext, hparse, hreflects⟩ :=
    (hp.printable habi.frame_pos habi.slot_pos.le hlow).parse
  exact ⟨text, listing, (codeText_eq_ok_iff hcode).mpr htext, hparse, hreflects⟩

theorem nested_reads_back : ∃ code text listing, (lowerProgram {} nested).code = .ok code ∧
    codeText (lowerProgram {} nested).code = .ok text ∧ Listing.parse text = .ok listing ∧
    Reflects code listing := by
  obtain ⟨code, hcode⟩ := exists_ok_of_isOk (x := (lowerProgram {} nested).code) (by decide +kernel)
  have hnamed : WellNamed {} nested := by constructor <;> decide +kernel
  have hp : Admissible {} nested := by
    refine ⟨?_, hnamed, ?_, ?_, ?_⟩ <;> decide +kernel
  obtain ⟨text, listing, hall⟩ := generated_text_reads_back (s := {}) (by decide +kernel) hp hcode
  exact ⟨code, text, listing, hcode, hall⟩

/-! ### Labels that are read as registers -/

theorem ofName?_of_parseOperand_label {cs : List Char} {name : String}
    (h : Machine.parseOperand cs = .ok (.label name)) : Register.ofName? name = none := by
  unfold Machine.parseOperand at h
  split at h
  · cases h
  · next hnone =>
    cases hmem : Machine.parseMem? cs with
    | some result =>
      rw [hmem] at h
      obtain rfl : result = .ok (.label name) := h
      simp only [Machine.parseMem?, Option.bind_eq_bind, Option.bind_eq_some_iff] at hmem
      obtain ⟨_, -, _, -, hresult⟩ := hmem
      have hresult := Option.some.inj hresult
      split at hresult
      · cases hresult
      · split at hresult
        · cases hresult
        · split at hresult <;> cases hresult
    | none =>
      rw [hmem] at h
      have h' : Machine.parseImmOrLabel cs = .ok (.label name) := h
      unfold Machine.parseImmOrLabel at h'
      split at h'
      · split at h' <;> cases h'
      · split at h'
        · cases h'
        · cases h'
          exact hnone

/-- No operand of an instruction is a label with the name of a register. -/
def LabelsApart (listing : Listing) : Prop :=
  ∀ i ∈ listing.instructions.toList, ∀ name, .label name ∈ i.operands → Register.ofName? name = none

theorem mapM_parseOperand {css : List (List Char)} : ∀ {os : List Machine.Operand},
    css.mapM Machine.parseOperand = .ok os → ∀ name, .label name ∈ os →
      Register.ofName? name = none := by
  induction css with
  | nil =>
    intro os h name hmem
    cases h
    exact absurd hmem List.not_mem_nil
  | cons cs css ih =>
    intro os h name hmem
    simp only [List.mapM_cons, ok_bind_iff, ok_pure_iff] at h
    obtain ⟨o, ho, os', hos, rfl⟩ := h
    rcases List.mem_cons.mp hmem with rfl | hmem
    · exact ofName?_of_parseOperand_label ho
    · exact ih hos name hmem

theorem instructions_of_addLabel {s s' : Machine.Loader} {line name : List Char}
    (h : s.addLabel line name = .ok s') : s'.listing.instructions = s.listing.instructions := by
  simp only [Machine.Loader.addLabel] at h
  split at h
  · cases h
  · split at h
    · cases h
    · split at h <;> (cases h; rfl)

theorem instructions_of_addRoom {s s' : Machine.Loader} {css : List (List Char)}
    (h : s.addRoom css = .ok s') : s'.listing.instructions = s.listing.instructions := by
  unfold Machine.Loader.addRoom at h
  split at h
  · simp only at h
    split at h
    · cases h
    · split at h
      · cases h
      · split at h
        · cases h
        · cases h
          rfl
  · cases h

theorem instructions_of_addWords {css : List (List Char)} : ∀ {s s' : Machine.Loader},
    css.foldlM Machine.Loader.addWord s = .ok s' →
      s'.listing.instructions = s.listing.instructions := by
  induction css with
  | nil =>
    intro s s' h
    cases h
    rfl
  | cons cs css ih =>
    intro s s' h
    rw [List.foldlM_cons, ok_bind_iff] at h
    obtain ⟨t, ht, h⟩ := h
    rw [ih h]
    unfold Machine.Loader.addWord at ht
    split at ht
    · cases ht
    · cases ht
      rfl

theorem instructions_of_directive {s s' : Machine.Loader} {name : String} {rest : List Char}
    (h : s.directive name rest = .ok s') : s'.listing.instructions = s.listing.instructions := by
  unfold Machine.Loader.directive at h
  split at h
  · cases h; rfl
  · cases h; rfl
  · cases h; rfl
  · cases h; rfl
  · cases h; rfl
  · exact instructions_of_addRoom h
  · exact instructions_of_addWords h
  · cases h; rfl

theorem LabelsApart.addLine {s s' : Machine.Loader} {n : ℕ} {line : List Char}
    (hs : LabelsApart s.listing) (h : s.addLine n line = .ok s') : LabelsApart s'.listing := by
  have hsame : s'.listing.instructions = s.listing.instructions → LabelsApart s'.listing :=
    fun heq => by
    unfold LabelsApart
    rw [heq]
    exact hs
  unfold Machine.Loader.addLine at h
  split at h
  · cases h
    exact hs
  · split at h
    · exact hsame (instructions_of_addLabel h)
    · simp only at h
      split at h
      · exact hsame (instructions_of_directive h)
      · simp only [Machine.Loader.addInstruction] at h
        split at h
        · simp only [ok_bind_iff, ok_pure_iff] at h
          obtain ⟨os, hos, _, -, rfl⟩ := h
          intro i hi name hmem
          rw [Array.toList_push, List.mem_append, List.mem_singleton] at hi
          rcases hi with hi | rfl
          · exact hs i hi name hmem
          · exact mapM_parseOperand hos name hmem
        · cases h

theorem LabelsApart.loadLines {lines : List (List Char)} : ∀ {s s' : Machine.Loader} {n : ℕ},
    LabelsApart s.listing → Machine.loadLines s n lines = .ok s' → LabelsApart s'.listing := by
  induction lines with
  | nil =>
    intro s s' n hs h
    cases h
    exact hs
  | cons line lines ih =>
    intro s s' n hs h
    unfold Machine.loadLines at h
    split at h
    · cases h
    · next ht => exact ih (hs.addLine ht) h

/-- A name that a register has is never read as a label. -/
theorem labelsApart_of_parse {text : String} {listing : Listing}
    (h : Listing.parse text = .ok listing) :
    LabelsApart listing := by
  unfold Listing.parse at h
  cases hload : Machine.loadLines {} 1 (Text.splitOn '\n' text.toList) with
  | error e =>
    rw [hload] at h
    cases h
  | ok s =>
    rw [hload] at h
    obtain rfl : s.listing = listing := Except.ok.inj h
    exact LabelsApart.loadLines (fun i hi => absurd hi List.not_mem_nil) hload

/-- A program with a variable of level zero in the scope of its body, with the name of a
register. -/
def registerLocal : RvBackend.Program where
  name := "register"
  file := "register.src"
  body := some (.mk {}
    (some ⟨[{ name := "t1", kind := .variable, type := .integer, level := 0 }]⟩) []
    [.assign {} ⟨{}, "t1"⟩ (.constant ⟨{}, .integer, 1⟩)])

/-- The address of such a variable is loaded by its name, which is then read as the register. -/
theorem register_local_not_read_back : ({} : Settings).problems = [] ∧
    (∀ r ∈ ({} : Abi).registers, (Register.ofName? r).isSome) ∧ WellNamed {} registerLocal ∧
    Unplaced registerLocal ∧
    (∀ f ∈ routines {} registerLocal,
      8 + ({} : Abi).slotSize.toInt * f.entries.length ≤ 2 ^ 63 - 16) ∧
    ∃ code, (lowerProgram {} registerLocal).code = .ok code ∧
      ∀ text listing, codeText (lowerProgram {} registerLocal).code = .ok text →
        Listing.parse text = .ok listing → ¬ Reflects code listing := by
  have hnamed : WellNamed {} registerLocal := by constructor <;> decide +kernel
  refine ⟨by decide +kernel, by decide +kernel, hnamed, by decide +kernel, by decide +kernel, ?_⟩
  obtain ⟨code, hcode⟩ :=
    exists_ok_of_isOk (x := (lowerProgram {} registerLocal).code) (by decide +kernel)
  refine ⟨code, hcode, fun text listing _ hparse hreflects => ?_⟩
  have hmem : ("la", [t0, Operand.label "t1"]) ∈ opsOf code.codeLines := by
    have hany : (lowerProgram {} registerLocal).code.toOption.any
        (fun code => decide (("la", [t0, Operand.label "t1"]) ∈ opsOf code.codeLines)) = true := by
      decide +kernel
    rw [hcode] at hany
    exact of_decide_eq_true hany
  obtain ⟨k, hk, hop⟩ := List.getElem_of_mem hmem
  have hreads := hreflects.instructions.get (hreflects.instructions.length_eq ▸ hk) hk
  rw [List.get_eq_getElem, List.get_eq_getElem, hop] at hreads
  have hoperands := hreads.operands
  have htranslate : [t0, Operand.label "t1"].mapM Operand.translate? =
    some [.reg 5, .label "t1"] := by decide
  rw [htranslate, Option.some.injEq] at hoperands
  have hlabel : Machine.Operand.label "t1" ∈ [Machine.Operand.reg 5, .label "t1"] := by decide
  rw [hoperands] at hlabel
  exact absurd (labelsApart_of_parse hparse _ (List.getElem_mem _) "t1" hlabel) (by decide)

end RvBackend.Lower
