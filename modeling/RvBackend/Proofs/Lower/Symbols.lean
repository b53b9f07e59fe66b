import RvBackend.Proofs.Asm.Definitions
import RvBackend.Proofs.Lower.ReadBack

/-! # The symbols that generated code defines

Generated code defines the names of the global entries and of the functions as the program gives
them, the name of the entry, an exit label for each function and fresh labels in between. Those that
generation makes begin with a point and never clash; reserved names are refused; nothing compares
the names of the program with each other.

* `Unbroken`: the names that are not checked to be identifiers do not break a line.
* `definitions_distinct_iff`: no symbol is defined twice exactly if the program gives no name twice,
  and then the machine does not refuse the text for a duplicate. -/

namespace RvBackend.Lower

open Asm
open Machine (Listing)

/-! ### Lines of generated code -/

/-- Names that do not break a line, and any numbers. -/
def Names.unbroken : Names where
  isSymbol name := '\n' ∉ name.toList
  isText name := '\n' ∉ name.toList
  isShort _ := True
  short _ _ _ := trivial

theorem newline_notMem_append {s t : String} (hs : '\n' ∉ s.toList) (ht : '\n' ∉ t.toList) :
    '\n' ∉ (s ++ t).toList := by
  rw [String.toList_append, List.mem_append, not_or]
  exact ⟨hs, ht⟩

theorem LabelForm.unbroken {name : String} (h : LabelForm .unbroken name) : '\n' ∉ name.toList := by
  cases h with
  | fresh n => exact newline_notMem_append (by decide) (newline_notMem_decimal _)
  | exit hf => exact newline_notMem_append (newline_notMem_append (by decide) hf) (by decide)
  | symbol h => exact h

theorem newline_notMem_workRegisters : ∀ r ∈ workRegisters, '\n' ∉ r.toList := by decide

theorem OperandForm.oneLine {abi : Abi} (hregs : ∀ r ∈ abi.registers, '\n' ∉ r.toList) {m : String}
    {o : Operand} (h : OperandForm abi .unbroken m o) : o.OneLine := by
  intro t ht
  cases h with
  | work h =>
    obtain ⟨-, ⟨⟩⟩ := Option.ite_none_left_eq_some.mp ht
    exact newline_notMem_workRegisters _ h
  | argument h =>
    obtain ⟨-, ⟨⟩⟩ := Option.ite_none_left_eq_some.mp ht
    exact hregs _ h
  | mem _ hb =>
    obtain ⟨-, ⟨⟩⟩ := Option.ite_none_left_eq_some.mp ht
    exact newline_notMem_append
      (newline_notMem_append (newline_notMem_append (newline_notMem_decimal _) (by decide))
        (newline_notMem_workRegisters _ hb)) (by decide)
  | label h =>
    obtain ⟨-, ⟨⟩⟩ := Option.ite_none_left_eq_some.mp ht
    exact h.unbroken
  | short _ _ =>
    cases ht
    exact newline_notMem_decimal _
  | word _ _ =>
    cases ht
    exact newline_notMem_decimal _

theorem LineForm.comment_unbroken {abi : Abi} {l : Line} (h : LineForm abi .unbroken l) :
    '\n' ∉ l.comment.toList := by
  cases h with
  | remark h =>
    intro hmem
    obtain ⟨name, hname, hmem'⟩ := h hmem
    exact hname hmem'
  | fresh _ => exact List.not_mem_nil
  | exit _ => exact List.not_mem_nil
  | op _ _ => exact List.not_mem_nil

theorem LineForm.oneLine {abi : Abi} (hregs : ∀ r ∈ abi.registers, '\n' ∉ r.toList) {l : Line}
    (h : LineForm abi .unbroken l) (hlabel : ∀ name ∈ labelsOf [l], IsWord name.toList) :
    l.OneLine := by
  refine ⟨h.comment_unbroken, ?_, ?_⟩
  · intro name hname
    refine hlabel name ?_
    simp [labelsOf, hname]
  · intro m os hop
    cases h with
    | remark _ => cases hop
    | fresh _ => cases hop
    | exit _ => cases hop
    | op hm ho =>
      cases hop
      obtain ⟨hne, hplain, hdot⟩ := isWord_mnemonics _ hm
      refine ⟨⟨hne, hplain⟩, ?_, fun o hmem => (ho o hmem).oneLine hregs⟩
      rintro rfl
      exact hdot rfl

/-! ### Programs -/

/-- The names of functions and global entries, helpers and the entry are identifiers. -/
structure Identified (abi : Abi) (p : RvBackend.Program) : Prop where
  functions : ∀ f ∈ p.functions, IsIdentifier f.name
  globals : ∀ e ∈ Table.entriesOf p.scope, IsIdentifier e.name
  printHelper : IsIdentifier abi.printHelper
  readHelper : IsIdentifier abi.readHelper
  entry : IsIdentifier abi.entry

/-- No local name, no name of a callee and none of a register breaks a line. -/
structure Unbroken (abi : Abi) (p : RvBackend.Program) : Prop where
  locals : ∀ f ∈ routines abi p, ∀ e ∈ f.entries, '\n' ∉ e.name.toList
  callees : ∀ f ∈ routines abi p, ∀ c ∈ f.callees, '\n' ∉ c.toList
  registers : ∀ r ∈ abi.registers, '\n' ∉ r.toList

section

variable {abi : Abi} {p : RvBackend.Program} {code : Asm.Program} {q : Progress}

theorem Identified.routines (h : Identified abi p) : ∀ f ∈ routines abi p, IsIdentifier f.name := by
  intro f hf
  rcases List.mem_append.mp hf with hf | hf
  · exact h.functions f hf
  · obtain rfl := List.mem_singleton.mp hf
    exact h.entry

/-- The names of the data and of the functions of generated code. -/
theorem Identified.isIdentifier (h : Identified abi p) (hlow : LoweredProgram abi p code q) :
    ∀ name ∈ code.dataNames ++ (Lower.routines abi p).map (·.name), IsIdentifier name := by
  refine List.forall_mem_append.mpr ⟨fun name hmem => ?_, fun name hmem => ?_⟩
  · obtain ⟨e, he, rfl⟩ := List.mem_map.mp (hlow.data.1.mem_iff.mp hmem)
    exact h.globals e he
  · obtain ⟨f, hf, rfl⟩ := List.mem_map.mp hmem
    exact h.routines f hf

theorem Identified.admitsAll (h : Identified abi p) (hunbroken : Unbroken abi p)
    (hvalid : abi.Valid) :
    Names.unbroken.AdmitsAll abi (Scopes.enter [] p.scope) (Lower.routines abi p) := by
  refine ⟨hvalid.frame_pos, ?_, newline_notMem_of_isIdentifier h.printHelper,
    newline_notMem_of_isIdentifier h.readHelper, fun f hf =>
    newline_notMem_of_isIdentifier (h.routines f hf),
    fun f hf => ?_⟩
  · refine Names.Sees.enter (fun t ht => absurd ht List.not_mem_nil) fun e he => ?_
    have hname := newline_notMem_of_isIdentifier (h.globals e he)
    exact ⟨hname, fun _ => hname, trivial⟩
  · exact ⟨hunbroken.locals f hf, fun e he _ => hunbroken.locals f hf e he,
      fun c hc => ⟨hunbroken.callees f hf c hc, hunbroken.callees f hf c hc⟩, fun _ _ => trivial⟩

/-- The labels of generated code are words. -/
theorem Identified.isWord_label (h : Identified abi p) (hlow : LoweredProgram abi p code q) :
    ∀ name ∈ labelsOf code.codeLines, IsWord name.toList := by
  intro name hmem
  rw [Program.codeLines, hlow.functions.labels.2.mem_iff] at hmem
  rcases List.mem_append.mp hmem with hmem | hmem
  · rcases List.mem_append.mp hmem with hmem | hmem
    · obtain ⟨f, hf, rfl⟩ := List.mem_map.mp hmem
      exact (h.routines f hf).isWord
    · obtain ⟨f, hf, rfl⟩ := List.mem_map.mp hmem
      exact (isSymbol_exit (h.routines f hf).plain).isWord
  · obtain ⟨k, -, rfl⟩ := List.mem_map.mp hmem
    exact (isSymbol_fresh k).isWord

theorem Identified.oneLine (h : Identified abi p) (hunbroken : Unbroken abi p) (hvalid : abi.Valid)
    (hlow : LoweredProgram abi p code q) : ∀ g ∈ code.functions, ∀ l ∈ g.lines, l.OneLine := by
  intro g hg l hl
  have hform := formed_functions hlow.functions (h.admitsAll hunbroken hvalid) g hg l hl
  refine hform.oneLine hunbroken.registers fun name hname => h.isWord_label hlow name ?_
  obtain ⟨front, back, hsplit⟩ := List.append_of_mem
    (List.mem_flatMap.mpr ⟨g, hg, List.mem_cons_of_mem _ hl⟩ : l ∈ code.codeLines)
  rw [Program.codeLines, hsplit, labelsOf_append]
  refine List.mem_append_right _ ?_
  show name ∈ labelsOf ([l] ++ back)
  rw [labelsOf_append]
  exact List.mem_append_left _ hname

/-- No symbol is defined twice exactly if the program gives no name twice. -/
theorem Identified.nodup_iff (h : Identified abi p) (hlow : LoweredProgram abi p code q) :
    code.definitions.Nodup ↔
      (p.functions.map (·.name) ++ (Table.entriesOf p.scope).map (·.name)).Nodup := by
  constructor
  · intro hnodup
    have hperm := (hlow.data.1.append hlow.functions.labels.2).nodup_iff.mp hnodup
    rw [List.append_assoc, ← List.append_assoc] at hperm
    have hnames := hperm.of_append_left
    rw [Lower.routines, List.map_append, ← List.append_assoc] at hnames
    exact List.nodup_append_comm.mp hnames.of_append_left
  · intro hdistinct
    refine hlow.functions.labels_nodup ?_ fun name hmem =>
      head_ne_dot_of_isIdentifier (h.isIdentifier hlow name hmem)
    exact (hlow.data.1.append_right _).nodup_iff.mpr (names_nodup hdistinct hlow.names)

end

/-- **No symbol is defined twice exactly if the program gives no name twice**, and then the machine
does not refuse the text for a duplicate, provided that no name breaks its line. -/
theorem definitions_distinct_iff {s : Settings} {p : RvBackend.Program} {code : Asm.Program}
    (hvalid : s.problems = []) (hp : Identified s.abi p)
    (hcode : (lowerProgram s.abi p).code = .ok code) :
    (code.definitions.Nodup ↔
      (p.functions.map (·.name) ++ (Table.entriesOf p.scope).map (·.name)).Nodup) ∧
    ((p.functions.map (·.name) ++ (Table.entriesOf p.scope).map (·.name)).Nodup → Unbroken s.abi p →
      ∀ text e name, codeText (lowerProgram s.abi p).code = .ok text →
      Listing.parse text = .error e →
        e.fault ≠ .duplicate name) := by
  obtain ⟨q, hlow, -⟩ := loweredProgram_of_code hcode
  have hiff := hp.nodup_iff hlow
  refine ⟨hiff, fun hdistinct hunbroken text e name htext herror => ?_⟩
  have hname := hp.isIdentifier hlow
  refine Program.no_duplicate ?_ ?_ (hp.oneLine hunbroken (abi_valid hvalid) hlow)
    (hiff.mpr hdistinct) ((codeText_eq_ok_iff hcode).mp htext) herror name
  · exact fun name hmem => (hname name (List.mem_append_left _ hmem)).isWord
  · intro g hg
    refine (hname g.name (List.mem_append_right _ ?_)).isWord
    rw [← hlow.functions.names]
    exact List.mem_map_of_mem hg

theorem nested_definitions_distinct : ∃ code, (lowerProgram {} nested).code = .ok code ∧
    code.definitions.Nodup ∧ ∀ text e name, codeText (lowerProgram {} nested).code = .ok text →
      Listing.parse text = .error e → e.fault ≠ .duplicate name := by
  obtain ⟨code, hcode⟩ := exists_ok_of_isOk (x := (lowerProgram {} nested).code) (by decide +kernel)
  have hnamed : Identified {} nested := by constructor <;> decide +kernel
  have hunbroken : Unbroken {} nested := by constructor <;> decide +kernel
  have hdistinct :
      (nested.functions.map (·.name) ++ (Table.entriesOf nested.scope).map (·.name)).Nodup := by
    decide +kernel
  obtain ⟨hiff, hduplicate⟩ := definitions_distinct_iff (s := {}) (by decide +kernel) hnamed hcode
  exact ⟨code, hcode, hiff.mpr hdistinct, hduplicate hdistinct hunbroken⟩

/-- A program with two functions of the same name. -/
def twice : RvBackend.Program where
  name := "twice"
  file := "twice.src"
  functions := [{ name := "f" }, { name := "f" }]

/-- Both functions get code, under the same label. -/
theorem twice_defined_twice :
    ({} : Settings).problems = [] ∧ Identified {} twice ∧ Unbroken {} twice ∧
    ∃ code, (lowerProgram {} twice).code = .ok code ∧ ¬ code.definitions.Nodup ∧
      code.definitions.count "f" = 2 := by
  have hnamed : Identified {} twice := by constructor <;> decide +kernel
  have hunbroken : Unbroken {} twice := by constructor <;> decide +kernel
  obtain ⟨code, hcode⟩ := exists_ok_of_isOk (x := (lowerProgram {} twice).code) (by decide +kernel)
  have hcount : code.definitions.count "f" = 2 := by
    have hany : (lowerProgram {} twice).code.toOption.any
        (fun code => decide (code.definitions.count "f" = 2)) = true := by decide +kernel
    rw [hcode] at hany
    exact of_decide_eq_true hany
  refine ⟨by decide +kernel, hnamed, hunbroken, code, hcode, fun hnodup => ?_, hcount⟩
  have hle := List.nodup_iff_count_le_one.mp hnodup "f"
  omega

end RvBackend.Lower
