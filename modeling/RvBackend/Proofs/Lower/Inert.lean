import RvBackend.Proofs.Asm.Refusal
import RvBackend.Proofs.Lower.Symbols

/-! # Names in comments, and the name of the file

Generated text holds two kinds of names. Those of functions, global entries, helpers and registers
are symbols of the assembler. Those of local entries stand in comments only, and the name of the
file in a string, so they should not matter: the machine should read the text as it reads the text
without them.

* `SymbolsNamed` asks for identifiers where the assembler sees a name, and for nothing else.
* `Operand.settled`: an operand by what the machine takes it for, a register or a label.
* `source_text_inert_iff`: the text is read, and as the bare text is, exactly if the line with the
  name of the file is not taken for a label. This holds as long as no local name breaks its line. -/

namespace RvBackend.Asm

open Machine

/-! ### Registers and labels -/

/-- The operand that the machine takes a name for: a register if one has the name, or else a
label. -/
def Operand.named (name : String) : Operand :=
  if (Register.ofName? name).isSome then .reg name else .label name

/-- The operand by what the machine takes it for. -/
def Operand.settled : Operand → Operand
  | .reg name => named name
  | .label name => named name
  | o => o

theorem Operand.text?_named (name : String) : (named name).text? = (label name).text? := by
  unfold named
  split <;> rfl

theorem Operand.text?_settled : ∀ o : Operand, o.settled.text? = o.text?
  | .reg name => text?_named name
  | .label name => text?_named name
  | .mem _ _ => rfl
  | .imm _ => rfl

/-- The line with its operands by what the machine takes them for. -/
def Line.settled (l : Line) : Line :=
  match l.content with
  | .op m os => { l with content := .op m (os.map Operand.settled) }
  | _ => l

theorem Line.text?_settled (l : Line) : l.settled.text? = l.text? := by
  obtain ⟨content, c⟩ := l
  cases content with
  | blank => rfl
  | label name => rfl
  | op m os =>
    have htexts : (os.map Operand.settled).mapM Operand.text? = os.mapM Operand.text? := by
      rw [List.mapM_map]
      exact congrArg (fun text? => os.mapM text?) (funext Operand.text?_settled)
    have hoperands : Line.operandsText? (os.map Operand.settled) = Line.operandsText? os := by
      cases os with
      | nil => rfl
      | cons o os => simp only [Line.operandsText?, List.map_cons] at htexts ⊢; rw [htexts]
    simp only [Line.text?, Line.settled, hoperands]
    rfl

end RvBackend.Asm

namespace RvBackend.Lower

open Asm
open Machine (Listing)

/-! ### Lines of generated code -/

/-- Identifiers as symbols, any names in comments, and numbers of 12 bits. -/
def Names.identifiers : Names := .narrow IsIdentifier fun _ => True

theorem readable_named_of_isSymbol {name m : String} (h : IsSymbol name) :
    (Operand.named name).Readable ∧ (Operand.named name).Encodable m := by
  have hlabel : Operand.named name = .label name := by
    rw [Operand.named, h.register]
    rfl
  rw [hlabel]
  exact ⟨h, trivial⟩

/-- An identifier is read as an operand, whether a register has the name or not. -/
theorem readable_named {name m : String} (h : IsIdentifier name ∨ (Register.ofName? name).isSome) :
    (Operand.named name).Readable ∧ (Operand.named name).Encodable m := by
  cases hreg : Register.ofName? name with
  | some r =>
    have hsome : (Register.ofName? name).isSome := by rw [hreg]; rfl
    rw [Operand.named, if_pos hsome]
    exact ⟨hsome, trivial⟩
  | none =>
    rw [hreg] at h
    exact readable_named_of_isSymbol (isSymbol_of_identifier (h.resolve_right (by simp)) hreg)

theorem LabelForm.readable_named {name m : String} (h : LabelForm .identifiers name) :
    (Operand.named name).Readable ∧ (Operand.named name).Encodable m := by
  cases h with
  | fresh n => exact readable_named_of_isSymbol (isSymbol_fresh n)
  | exit hf => exact readable_named_of_isSymbol (isSymbol_exit (IsIdentifier.plain hf))
  | symbol h => exact Lower.readable_named (.inl h)

theorem OperandForm.readable_settled {abi : Abi}
    (hregs : ∀ r ∈ abi.registers, IsIdentifier r ∨ (Register.ofName? r).isSome) {m : String}
    {o : Operand} (h : OperandForm abi .identifiers m o) :
    o.settled.Readable ∧ o.settled.Encodable m := by
  cases h with
  | work h => exact readable_named (.inr (ofName?_workRegisters _ h))
  | argument h => exact readable_named (hregs _ h)
  | mem h hb =>
    have hshort := h
    simp only [Names.identifiers, Names.narrow] at hshort
    exact ⟨⟨ofName?_workRegisters _ hb, by omega, by omega⟩, h⟩
  | label h => exact h.readable_named
  | @short n h hm =>
    have hshort := h
    simp only [Names.identifiers, Names.narrow] at hshort
    refine ⟨⟨by omega, by omega⟩, ?_⟩
    show if m = "li" then _ else _
    rw [if_neg hm]
    exact h
  | word h hm =>
    refine ⟨h, ?_⟩
    show if m = "li" then _ else _
    rw [if_pos hm]
    exact h

theorem LineForm.loadable_bare {abi : Abi}
    (hregs : ∀ r ∈ abi.registers, IsIdentifier r ∨ (Register.ofName? r).isSome) {l : Line}
    (h : LineForm abi .identifiers l) : Loadable l.bare.settled := by
  cases h with
  | remark _ => exact @Loadable.remark "" (by decide)
  | fresh n => exact .label (isSymbol_fresh n)
  | exit hf => exact .label (isSymbol_exit (IsIdentifier.plain hf))
  | op hm ho =>
    obtain ⟨hne, hplain, hdot⟩ := isWord_mnemonics _ hm
    refine .op ⟨hne, hplain⟩ hdot fun o hmem => ?_
    obtain ⟨o', ho', rfl⟩ := List.mem_map.mp hmem
    exact (ho o' ho').readable_settled hregs

/-! ### Programs -/

/-- The names that the assembler sees are identifiers: those of functions, global entries, callees,
helpers and the entry are not names of registers, and no two functions or global entries share one.
A local entry of level zero is addressed by its name. -/
structure SymbolsNamed (abi : Abi) (p : RvBackend.Program) : Prop where
  functions : ∀ f ∈ p.functions, IsName f.name
  globals : ∀ e ∈ Table.entriesOf p.scope, IsName e.name
  addressed : ∀ f ∈ routines abi p, ∀ e ∈ f.entries, e.isGlobal → IsIdentifier e.name
  callees : ∀ f ∈ routines abi p, ∀ c ∈ f.callees, IsName c
  printHelper : IsName abi.printHelper
  readHelper : IsName abi.readHelper
  entry : IsName abi.entry
  registers : ∀ r ∈ abi.registers, IsIdentifier r ∨ (Register.ofName? r).isSome
  distinct : (p.functions.map (·.name) ++ (Table.entriesOf p.scope).map (·.name)).Nodup

section

variable {abi : Abi} {p : RvBackend.Program} {code : Asm.Program} {q : Progress}

theorem SymbolsNamed.admitsAll (h : SymbolsNamed abi p) (hvalid : abi.Valid)
    (hunplaced : Unplaced p)
    (hroom : ∀ f ∈ routines abi p, 8 + abi.slotSize.toInt * f.entries.length ≤ 2 ^ 63 - 16)
    (hlow : LoweredProgram abi p code q) :
    Names.identifiers.AdmitsAll abi (Scopes.enter [] p.scope) (routines abi p) := by
  have hslot : 0 ≤ abi.slotSize.toInt := hvalid.slot_pos.le
  have hsmall := hlow.functions.room_le hslot hroom
  refine ⟨hvalid.frame_pos, ?_, h.printHelper.1, h.readHelper.1, ?_, ?_⟩
  · refine Names.Sees.enter (fun t ht => absurd ht List.not_mem_nil) fun e he => ?_
    refine ⟨trivial, fun _ => (h.globals e he).1, ?_⟩
    rw [hunplaced e he]
    exact ⟨by decide, by decide⟩
  · intro f hf
    rcases List.mem_append.mp hf with hf | hf
    · exact (h.functions f hf).1
    · obtain rfl := List.mem_singleton.mp hf
      exact h.entry.1
  · intro f hf
    refine ⟨fun _ _ => trivial, h.addressed f hf, fun c hc => ⟨(h.callees f hf c hc).1, trivial⟩,
      ?_⟩
    intro slot hmem
    have hle := hsmall f hf
    have hbounds := mem_functionSlots hslot (by omega) hmem
    exact ⟨by omega, by omega⟩

/-- The functions and the data of generated code have names. -/
theorem SymbolsNamed.isName (h : SymbolsNamed abi p) (hlow : LoweredProgram abi p code q) :
    ∀ name ∈ code.dataNames ++ (routines abi p).map (·.name), IsName name := by
  refine List.forall_mem_append.mpr ⟨fun name hmem => ?_, fun name hmem => ?_⟩
  · obtain ⟨e, he, rfl⟩ := List.mem_map.mp (hlow.data.1.mem_iff.mp hmem)
    exact h.globals e he
  · obtain ⟨f, hf, rfl⟩ := List.mem_map.mp hmem
    rcases List.mem_append.mp hf with hf | hf
    · exact h.functions f hf
    · obtain rfl := List.mem_singleton.mp hf
      exact h.entry

theorem labelsOf_bare_settled (l : Line) : labelsOf [l.bare.settled] = labelsOf [l] := by
  obtain ⟨content, c⟩ := l
  cases content with
  | blank => rfl
  | label name => rfl
  | op m os => rfl

/-- Generated code without its comments can be printed so that it is read back. -/
theorem SymbolsNamed.printable (h : SymbolsNamed abi p) (hvalid : abi.Valid)
    (hunplaced : Unplaced p)
    (hroom : ∀ f ∈ routines abi p, 8 + abi.slotSize.toInt * f.entries.length ≤ 2 ^ 63 - 16)
    (hlow : LoweredProgram abi p code q) : Printable (code.bare.mapLines Line.settled) := by
  obtain ⟨hdata, hglobals, hconstants⟩ := hlow.data
  have hadmits := h.admitsAll hvalid hunplaced hroom hlow
  have hname := h.isName hlow
  have hlines : (code.bare.mapLines Line.settled).codeLines = code.codeLines.map fun l =>
    l.bare.settled := by
    rw [codeLines_mapLines (fun _ => rfl)]
    show ((code.mapLines Line.bare).codeLines).map Line.settled = _
    rw [codeLines_mapLines (fun _ => rfl), List.map_map]
    rfl
  have hfile : Uncommented "".toList := by decide
  refine ⟨hfile, hglobals, hconstants, ?_, ?_, ?_⟩
  · exact fun name hmem => (hname name (List.mem_append_left _ hmem)).isSymbol
  · rw [hlines]
    refine List.forall_mem_map.mpr fun l hl => ?_
    obtain ⟨g, hg, hl⟩ := List.mem_flatMap.mp hl
    rcases List.mem_cons.mp hl with rfl | hl
    · refine .label (hname g.name (List.mem_append_right _ ?_)).isSymbol
      rw [← hlow.functions.names]
      exact List.mem_map_of_mem hg
    · exact (formed_functions hlow.functions hadmits g hg l hl).loadable_bare h.registers
  · rw [hlines, labelsOf_map labelsOf_bare_settled]
    refine hlow.functions.labels_nodup ?_ fun name hmem =>
      head_ne_dot_of_isIdentifier (hname name hmem).1
    exact (hdata.append_right _).nodup_iff.mpr (names_nodup h.distinct hlow.names)

theorem SymbolsNamed.identified (h : SymbolsNamed abi p) : Identified abi p :=
  ⟨fun f hf => (h.functions f hf).1, fun e he => (h.globals e he).1, h.printHelper.1,
    h.readHelper.1, h.entry.1⟩

theorem SymbolsNamed.unbroken (h : SymbolsNamed abi p)
    (hlocals : ∀ f ∈ routines abi p, ∀ e ∈ f.entries, '\n' ∉ e.name.toList) : Unbroken abi p := by
  refine ⟨hlocals, fun f hf c hc => newline_notMem_of_isIdentifier (h.callees f hf c hc).1,
    fun r hr => ?_⟩
  rcases h.registers r hr with hname | hknown
  · exact newline_notMem_of_isIdentifier hname
  · obtain ⟨n, hn⟩ := Option.isSome_iff_exists.mp hknown
    exact (isWord_of_ofName? hn).1.notMem (by decide)

end

/-- **The text is read as the text without comments and name of the file is**, exactly if the line
with the name of the file is not taken for a label, provided that no local name breaks its line. -/
theorem source_text_inert_iff {s : Settings} {p : RvBackend.Program} {code : Asm.Program}
    (hvalid : s.problems = []) (hp : SymbolsNamed s.abi p) (hunplaced : Unplaced p)
    (hroom : ∀ f ∈ routines s.abi p, 8 + s.abi.slotSize.toInt * f.entries.length ≤ 2 ^ 63 - 16)
    (hlocals : ∀ f ∈ routines s.abi p, ∀ e ∈ f.entries, '\n' ∉ e.name.toList)
    (hcode : (lowerProgram s.abi p).code = .ok code) :
    (∃ text bareText listing, codeText (lowerProgram s.abi p).code = .ok text ∧
      code.bare.text? = some bareText ∧ Listing.parse bareText = .ok listing ∧
      Listing.parse text = .ok listing) ↔ ¬ ReadAsLabel p.file := by
  obtain ⟨q, hlow, -⟩ := loweredProgram_of_code hcode
  have habi := abi_valid hvalid
  -- the bare text is always read
  obtain ⟨bareText, listing, hbare, hparse, -⟩ := (hp.printable habi hunplaced hroom hlow).parse
  rw [text?_mapLines Line.text?_settled] at hbare
  obtain ⟨text, htext⟩ := exists_text_of_bare hbare
  have hcomments : ∀ g ∈ code.functions, ∀ l ∈ g.lines, '\n' ∉ l.comment.toList := fun g hg l hl =>
    (hp.identified.oneLine (hp.unbroken hlocals) habi hlow g hg l hl).comment
  obtain ⟨bareText', hbare', hread⟩ := parse_bare hcomments htext
  obtain rfl : bareText = bareText' := Option.some.inj (hbare.symm.trans hbare')
  rw [hlow.file] at hread
  constructor
  · rintro ⟨text', bareText', listing', htext', -, -, hparse'⟩ hlabel
    obtain rfl : text = text' :=
      Option.some.inj (htext.symm.trans ((codeText_eq_ok_iff hcode).mp htext'))
    rw [hread, if_pos hlabel] at hparse'
    cases hparse'
  · intro hlabel
    rw [if_neg hlabel] at hread
    exact ⟨text, bareText, listing, (codeText_eq_ok_iff hcode).mpr htext, hbare, hparse,
      hread.trans hparse⟩

/-- A program with a name of a file and a local name. -/
def printing (file name : String) : RvBackend.Program where
  name := "printing"
  file := file
  body := some (.mk {} (some ⟨[{ name, kind := .variable, type := .integer, level := 1 }]⟩) []
    [.assign {} ⟨{}, name⟩ (.constant ⟨{}, .integer, 1⟩), .print {} (.variable ⟨{}, name⟩)])

/-- Quotes, colons and marks of comments do no harm in a local name, nor in most places of the name
of a file. -/
theorem printing_inert : ∃ code text bareText listing,
    (lowerProgram {} (printing "a \"b\" // c:" "x: // y#")).code = .ok code ∧
    codeText (lowerProgram {} (printing "a \"b\" // c:" "x: // y#")).code = .ok text ∧
    code.bare.text? = some bareText ∧ Listing.parse bareText = .ok listing ∧
    Listing.parse text = .ok listing := by
  obtain ⟨code, hcode⟩ := exists_ok_of_isOk
    (x := (lowerProgram {} (printing "a \"b\" // c:" "x: // y#")).code) (by decide +kernel)
  have hnamed : SymbolsNamed {} (printing "a \"b\" // c:" "x: // y#") := by
    constructor <;> decide +kernel
  have hinert := source_text_inert_iff (s := {}) (by decide +kernel) hnamed (by decide +kernel)
    (by decide +kernel) (by decide +kernel) hcode
  obtain ⟨text, bareText, listing, hall⟩ := hinert.mpr (by decide +kernel)
  exact ⟨code, text, bareText, listing, hcode, hall⟩

/-- A local name that breaks its line: the comment with it leaves a line with a colon only. -/
def broken : String := "x\n:"

theorem refused_colon : Refused [':'] := fun _ _ => ⟨.label ":", rfl⟩

/-- A colon in front of a comment mark in the name of the file, and a line break in a local name,
both make a text that is refused, though all symbols are named well. -/
theorem printing_not_inert :
    (SymbolsNamed {} (printing "http://a" "x") ∧
      ∃ text, codeText (lowerProgram {} (printing "http://a" "x")).code = .ok text ∧
        Listing.parse text = .error ⟨1, .label ".file \"http:"⟩) ∧
    (SymbolsNamed {} (printing "a" broken) ∧
      ∃ text e, codeText (lowerProgram {} (printing "a" broken)).code = .ok text ∧
        Listing.parse text = .error e) := by
  refine ⟨⟨by constructor <;> decide +kernel, ?_⟩, ⟨by constructor <;> decide +kernel, ?_⟩⟩
  · obtain ⟨text, htext⟩ := exists_ok_of_isOk
      (x := codeText (lowerProgram {} (printing "http://a" "x")).code) (by decide +kernel)
    obtain ⟨code, hcode⟩ := exists_ok_of_isOk
      (x := (lowerProgram {} (printing "http://a" "x")).code) (by decide +kernel)
    have hcomments : code.file = "http://a" ∧ ∀ g ∈ code.functions, ∀ l ∈ g.lines,
        '\n' ∉ l.comment.toList := by
      have hany : (lowerProgram {} (printing "http://a" "x")).code.toOption.any (fun code => decide
          (code.file = "http://a" ∧ ∀ g ∈ code.functions, ∀ l ∈ g.lines, '\n' ∉ l.comment.toList)) =
          true := by
        decide +kernel
      rw [hcode] at hany
      exact of_decide_eq_true hany
    obtain ⟨bareText, -, hread⟩ := parse_bare hcomments.2 ((codeText_eq_ok_iff hcode).mp htext)
    have hline : String.ofList (fileLine "http://a") = ".file \"http:" := by decide +kernel
    rw [hcomments.1, if_pos (by decide +kernel), hline] at hread
    exact ⟨text, htext, hread⟩
  · obtain ⟨text, htext⟩ := exists_ok_of_isOk
      (x := codeText (lowerProgram {} (printing "a" broken)).code) (by decide +kernel)
    obtain ⟨code, hcode⟩ := exists_ok_of_isOk
      (x := (lowerProgram {} (printing "a" broken)).code) (by decide +kernel)
    have hremark : ∃ g ∈ code.functions, Line.remark ("assign " ++ broken) ∈ g.lines := by
      have hany : (lowerProgram {} (printing "a" broken)).code.toOption.any (fun code => decide
          (∃ g ∈ code.functions, Line.remark ("assign " ++ broken) ∈ g.lines)) = true := by
        decide +kernel
      rw [hcode] at hany
      exact of_decide_eq_true hany
    obtain ⟨g, hg, hl⟩ := hremark
    have hinfix := infix_of_program ((codeText_eq_ok_iff hcode).mp htext) hg hl
      (by rfl : (Line.remark ("assign " ++ broken)).text? =
        some ("// " ++ ("assign " ++ broken) ++ "\n"))
    have hcolon : '\n' :: ([':'] ++ ['\n']) <:+: '\n' ::
        ("// " ++ ("assign " ++ broken) ++ "\n").toList :=
      ⟨"\n// assign x".toList, [], by decide +kernel⟩
    obtain ⟨e, herror⟩ := parse_of_refused refused_colon (by decide) (hcolon.trans hinfix)
    exact ⟨text, e, htext, herror⟩

end RvBackend.Lower
