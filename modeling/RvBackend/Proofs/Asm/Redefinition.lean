import RvBackend.Proofs.Asm.Definitions

/-! # Symbols with one definition

A line defines a symbol if it is a label, in code or in data, or if it reserves room under a name. A
label is refused if its name is known at all; room is refused only if its name is known in data. So
a text that is read gives each symbol one definition, unless it reserves room under a name that is a
label of code already.

* `definitions`: the definitions of a text, line by line and in order, said without the tables of a
  listing.
* `Known`: what the tables hold behind some definitions, and which of these can share a name. Each
  line keeps it (`Known.addLine`), and so does a text (`Known.loadRead`).
* `DefinedOnce`: each symbol of a listing has one definition.
* `symbols_defined_once_iff`: which of the texts that are read are such. -/

namespace RvBackend.Asm

open Machine

/-! ### Definitions of a text -/

/-- How a line defines a name. -/
inductive Definition where
  /-- A label in code. -/
  | code (name : String)
  /-- A label outside code. -/
  | data (name : String)
  /-- Room that is reserved, in whichever section. -/
  | room (name : String)
deriving DecidableEq

namespace Definition

/-- The name that is defined. -/
def name : Definition → String
  | .code name => name
  | .data name => name
  | .room name => name

/-- Whether the name gets a place in code. -/
def isCode : Definition → Bool
  | .code _ => true
  | _ => false

variable (n : String)

@[simp] theorem name_code : (code n).name = n := rfl
@[simp] theorem name_data : (data n).name = n := rfl
@[simp] theorem name_room : (room n).name = n := rfl
@[simp] theorem isCode_code : (code n).isCode = true := rfl
@[simp] theorem isCode_data : (data n).isCode = false := rfl
@[simp] theorem isCode_room : (room n).isCode = false := rfl

end Definition

/-- The first word of a line that is no label, up to a space. -/
def firstWord (line : List Char) : String := String.ofList ((Text.cut ' ' line).getD (line, [])).1

/-- What stands behind the first word. -/
def behindWord (line : List Char) : List Char := Text.trim ((Text.cut ' ' line).getD (line, [])).2

/-- Whether a section of code is open behind a first word, if one was (or was not) in front of
it. -/
def codeBehindWord (inCode : Bool) (word : String) (rest : List Char) : Bool :=
  if word = ".section" then [".text", "text"].contains (String.ofList rest)
  else if word = ".text" then true
  else if word ∈ [".data", ".rodata", ".bss"] then false
  else inCode

/-- Whether a section of code is open behind a line. -/
def codeBehind (inCode : Bool) (line : List Char) : Bool :=
  if (Text.stripSuffix [':'] line).isSome then inCode
  else codeBehindWord inCode (firstWord line) (behindWord line)

/-- The definition of a line: every label is one, and every line that reserves room. -/
def definition? (inCode : Bool) (line : List Char) : Option Definition :=
  match Text.stripSuffix [':'] line with
  | some name => some (if inCode then .code (String.ofList name) else .data (String.ofList name))
  | none =>
    if firstWord line = ".comm" then
      some (.room (String.ofList ((splitOperands (behindWord line)).headD [])))
    else none

/-- The definitions of lines as they are read, one behind the other. -/
def definitionsFrom (inCode : Bool) : List (List Char) → List Definition
  | [] => []
  | line :: lines => (definition? inCode line).toList ++ definitionsFrom (codeBehind inCode line)
      lines

/-- **The definitions of a text**, which begins in code. -/
def definitions (text : String) : List Definition := definitionsFrom true (readLines text.toList)

/-! ### What a loader knows -/

/-- The names of the labels of code. -/
def codeNames (l : Listing) : List String := l.codeLabels.map Prod.fst

/-- The names of the labels of data. -/
def dataNames (l : Listing) : List String := l.dataLabels.map Prod.fst

/-- The names of those definitions that have a place in code, or of those that have not, the last
one first. -/
def placed (code : Bool) (ds : List Definition) : List String :=
  ((ds.filter (·.isCode == code)).map Definition.name).reverse

theorem placed_concat (code : Bool) (ds : List Definition) (d : Definition) :
    placed code (ds ++ [d]) = if d.isCode = code then d.name :: placed code ds
      else placed code ds := by
  unfold placed
  by_cases hd : d.isCode = code
  · simp [hd]
  · simp [hd, List.filter_append]

theorem mem_placed {ds : List Definition} {d : Definition} (h : d ∈ ds) :
    d.name ∈ placed d.isCode ds := by
  rw [placed, List.mem_reverse]
  exact List.mem_map_of_mem (List.mem_filter.mpr ⟨h, beq_self_eq_true _⟩)

/-- One name may be defined by two lines only in this order: as a label of code, and then as
room. -/
def Apart (d d' : Definition) : Prop := d.name = d'.name → ∃ name, d = .code name ∧ d' = .room name

/-- What a loader knows behind some definitions: each of them has given one table one name, and no
two of them share a name but a label of code and room behind it. -/
structure Known (ds : List Definition) (s : Loader) : Prop where
  code : codeNames s.listing = placed true ds
  data : dataNames s.listing = placed false ds
  apart : ds.Pairwise Apart

theorem known_start : Known [] {} := ⟨rfl, rfl, List.Pairwise.nil⟩

section Known

variable {ds : List Definition} {s s' : Loader}

/-- A definition of a name that the table of data does not have is a label of code. -/
theorem Known.code_of_notMem (h : Known ds s) {name : String} (hdata : name ∉ dataNames s.listing)
    {d : Definition} (hd : d ∈ ds) (hname : d.name = name) :
    d.isCode = true ∧ name ∈ codeNames s.listing := by
  have hmem := mem_placed hd
  rw [hname] at hmem
  cases hform : d.isCode with
  | true =>
    rw [hform, ← h.code] at hmem
    exact ⟨rfl, hmem⟩
  | false =>
    rw [hform, ← h.data] at hmem
    exact absurd hmem hdata

/-- A line without a definition leaves the tables as they are. -/
theorem Known.same (h : Known ds s) (hcode : s'.listing.codeLabels = s.listing.codeLabels)
    (hdata : s'.listing.dataLabels = s.listing.dataLabels) : Known ds s' where
  code := by rw [codeNames, hcode]; exact h.code
  data := by rw [dataNames, hdata]; exact h.data
  apart := h.apart

/-- One more definition, which gives one of the tables its name. -/
theorem Known.concat (h : Known ds s) {d : Definition} (hapart : ∀ d' ∈ ds, Apart d' d)
    (hcode : codeNames s'.listing = if d.isCode = true then d.name :: codeNames s.listing
      else codeNames s.listing)
    (hdata : dataNames s'.listing = if d.isCode = false then d.name :: dataNames s.listing
      else dataNames s.listing) :
    Known (ds ++ [d]) s' := by
  refine ⟨?_, ?_, List.pairwise_append.mpr ⟨h.apart, List.pairwise_singleton _ _, ?_⟩⟩
  · rw [placed_concat, ← h.code, hcode]
  · rw [placed_concat, ← h.data, hdata]
  · intro d' hd' d'' hd''
    obtain rfl := List.mem_singleton.mp hd''
    exact hapart d' hd'

/-- A label whose name neither table has. -/
theorem Known.label (h : Known ds s) {name : String} (hcode : name ∉ codeNames s.listing)
    (hdata : name ∉ dataNames s.listing) :
    Known (ds ++ [if s.inText then .code name else .data name]) (labelled s name) := by
  have hnew : ∀ d ∈ ds, d.name ≠ name := fun d hd hname => hcode (h.code_of_notMem hdata hd hname).2
  unfold labelled
  by_cases htext : s.inText = true
  · rw [if_pos htext, if_pos htext]
    exact h.concat (fun d hd hname => absurd hname (hnew d hd)) rfl rfl
  · rw [if_neg htext, if_neg htext]
    exact h.concat (fun d hd hname => absurd hname (hnew d hd)) rfl rfl

/-- Room under a name that the table of data does not have. Whether the name is a label of code is
not looked at. -/
theorem Known.room (h : Known ds s) {name : String} {addr : UInt32}
    (hdata : name ∉ dataNames s.listing) (hcodes : s'.listing.codeLabels = s.listing.codeLabels)
    (hdatas : s'.listing.dataLabels = (name, addr) :: s.listing.dataLabels) :
    Known (ds ++ [.room name]) s' := by
  refine h.concat (fun d hd hname => ?_) ?_ ?_
  · have hform := (h.code_of_notMem hdata hd hname).1
    cases d with
    | code name' => exact ⟨name', rfl, congrArg _ hname.symm⟩
    | data name' => cases hform
    | room name' => cases hform
  · rw [codeNames, hcodes]
    rfl
  · rw [dataNames, hdatas]
    rfl

end Known

/-! ### Line by line -/

section Line

variable {ds : List Definition} {s s' : Loader}

theorem Known.addLabel (h : Known ds s) {line name : List Char}
    (hok : s.addLabel line name = .ok s') :
    Known (ds ++ [if s.inText then .code (String.ofList name) else .data (String.ofList name)]) s' ∧
      s'.inText = s.inText := by
  rw [addLabel_eq] at hok
  split at hok
  · cases hok
  · split at hok
    · cases hok
    · next hfresh =>
      cases hok
      rw [Bool.or_eq_true, not_or, Option.not_isSome_iff_eq_none, Option.not_isSome_iff_eq_none,
        lookup_eq_none_iff, lookup_eq_none_iff] at hfresh
      refine ⟨h.label hfresh.1 hfresh.2, ?_⟩
      unfold labelled
      split <;> rfl

/-- Room that is reserved stands in the table of data, which did not have its name. -/
theorem addRoom_eq_ok {args : List (List Char)} (hok : s.addRoom args = .ok s') :
    String.ofList (args.headD []) ∉ dataNames s.listing ∧
      s'.listing.codeLabels = s.listing.codeLabels ∧
      s'.listing.dataLabels = (String.ofList (args.headD []), s.next) :: s.listing.dataLabels ∧
      s'.inText = s.inText := by
  unfold Loader.addRoom at hok
  split at hok
  · simp only at hok
    split at hok
    · cases hok
    · split at hok
      · cases hok
      · split at hok
        · cases hok
        · next hfresh =>
          cases hok
          rw [Option.not_isSome_iff_eq_none, lookup_eq_none_iff] at hfresh
          exact ⟨hfresh, rfl, rfl, rfl⟩
  · cases hok

/-- Words leave the tables of labels and the section as they are. -/
theorem same_addWords {args : List (List Char)} (hok : args.foldlM Loader.addWord s = .ok s') :
    s'.listing.codeLabels = s.listing.codeLabels ∧ s'.listing.dataLabels = s.listing.dataLabels ∧
      s'.inText = s.inText := by
  induction args generalizing s with
  | nil =>
    cases hok
    exact ⟨rfl, rfl, rfl⟩
  | cons arg args ih =>
    rw [List.foldlM_cons, ok_bind_iff] at hok
    obtain ⟨m, hword, hrest⟩ := hok
    obtain ⟨hcode, hdata, htext⟩ := ih hrest
    unfold Loader.addWord at hword
    split at hword
    · cases hword
    · cases hword
      exact ⟨hcode, hdata, htext⟩

/-- **What a directive does**: it opens the section that it chooses; and it reserves room, or leaves
the tables of labels as they are. -/
theorem directive_eq_ok {word : String} {rest : List Char} (hok : s.directive word rest = .ok s') :
    s'.inText = codeBehindWord s.inText word rest ∧
      (word = ".comm" ∧ s.addRoom (splitOperands rest) = .ok s' ∨
        word ≠ ".comm" ∧ s'.listing.codeLabels = s.listing.codeLabels ∧
          s'.listing.dataLabels = s.listing.dataLabels) := by
  unfold Loader.directive at hok
  split at hok
  · cases hok
    refine ⟨?_, .inr ⟨by decide, rfl, rfl⟩⟩
    simp only [codeBehindWord, if_true, List.contains_cons, List.contains_nil, Bool.or_false]
  · cases hok; exact ⟨rfl, .inr ⟨by decide, rfl, rfl⟩⟩
  · cases hok; exact ⟨rfl, .inr ⟨by decide, rfl, rfl⟩⟩
  · cases hok; exact ⟨rfl, .inr ⟨by decide, rfl, rfl⟩⟩
  · cases hok; exact ⟨rfl, .inr ⟨by decide, rfl, rfl⟩⟩
  · exact ⟨(addRoom_eq_ok hok).2.2.2, .inl ⟨rfl, hok⟩⟩
  · obtain ⟨hcode, hdata, htext⟩ := same_addWords hok
    exact ⟨htext, .inr ⟨by decide, hcode, hdata⟩⟩
  · next hsection htext hdata hrodata hbss hcomm _ =>
    cases hok
    have hnone : word ∉ [".data", ".rodata", ".bss"] := by
      simp only [List.mem_cons, List.not_mem_nil, or_false, not_or]
      exact ⟨hdata, hrodata, hbss⟩
    refine ⟨?_, .inr ⟨hcomm, rfl, rfl⟩⟩
    rw [codeBehindWord, if_neg hsection, if_neg htext, if_neg hnone]

theorem same_addInstruction {n : ℕ} {word : String} {rest : List Char}
    (hok : s.addInstruction n word rest = .ok s') :
    s'.listing.codeLabels = s.listing.codeLabels ∧ s'.listing.dataLabels = s.listing.dataLabels ∧
      s'.inText = s.inText := by
  simp only [Loader.addInstruction] at hok
  split at hok
  · simp only [ok_bind_iff, ok_pure_iff] at hok
    obtain ⟨operands, -, _, -, rfl⟩ := hok
    exact ⟨rfl, rfl, rfl⟩
  · cases hok

/-- What begins without a point chooses no section. -/
theorem codeBehindWord_of_head {inCode : Bool} {word : String} {rest : List Char}
    (h : word.toList.head? ≠ some '.') :
    codeBehindWord inCode word rest = inCode := by
  have hne : ∀ w : String, w.toList.head? = some '.' → word ≠ w := by
    rintro w hw rfl
    exact h hw
  have hnone : word ∉ [".data", ".rodata", ".bss"] := by
    simp only [List.mem_cons, List.not_mem_nil, or_false, not_or]
    exact ⟨hne _ rfl, hne _ rfl, hne _ rfl⟩
  rw [codeBehindWord, if_neg (hne _ rfl), if_neg (hne _ rfl), if_neg hnone]

/-- **One line** gives the tables what it defines, and opens the section that it chooses. -/
theorem Known.addLine (h : Known ds s) {n : ℕ} {line : List Char}
    (hok : s.addLine n line = .ok s') :
    Known (ds ++ (definition? s.inText line).toList) s' ∧ s'.inText = codeBehind s.inText line := by
  unfold Loader.addLine at hok
  unfold definition? codeBehind
  split at hok
  · next hempty =>
    cases hok
    obtain rfl := List.isEmpty_iff.mp hempty
    exact ⟨by rw [← List.append_nil ds] at h; exact h, rfl⟩
  · cases hstrip : Text.stripSuffix [':'] line with
    | some name =>
      rw [hstrip] at hok
      exact h.addLabel hok
    | none =>
      rw [hstrip] at hok
      simp only at hok
      change (if _ then s.directive (firstWord line) (behindWord line) else
        s.addInstruction n (firstWord line) (behindWord line)) = .ok s' at hok
      split at hok
      · obtain ⟨htext, ⟨hcomm, hroom⟩ | ⟨hcomm, hcode, hdata⟩⟩ := directive_eq_ok hok
        · obtain ⟨hfresh, hcode, hdata, -⟩ := addRoom_eq_ok hroom
          simp only [hcomm, if_true, Option.toList_some]
          exact ⟨h.room hfresh hcode hdata, hcomm ▸ htext⟩
        · simp only [hcomm, if_false, Option.toList_none, List.append_nil]
          exact ⟨h.same hcode hdata, htext⟩
      · next hdot =>
        have hhead : (firstWord line).toList.head? ≠ some '.' := by
          rw [firstWord, String.toList_ofList]
          simpa using hdot
        have hcomm : firstWord line ≠ ".comm" := by
          intro hcomm
          rw [hcomm] at hhead
          exact hhead rfl
        obtain ⟨hcode, hdata, htext⟩ := same_addInstruction hok
        simp only [hcomm, if_false, Option.toList_none, List.append_nil]
        refine ⟨h.same hcode hdata, ?_⟩
        rw [htext]
        exact (codeBehindWord_of_head hhead).symm

/-- **All lines**, one behind the other. -/
theorem Known.loadRead {n : ℕ} {lines : List (List Char)} (h : Known ds s)
    (hok : loadRead s n lines = .ok s') :
    Known (ds ++ definitionsFrom s.inText lines) s' := by
  induction lines generalizing ds s n with
  | nil =>
    cases hok
    simpa [definitionsFrom] using h
  | cons line lines ih =>
    unfold Asm.loadRead at hok
    split at hok
    · cases hok
    · next hline =>
      obtain ⟨hknown, htext⟩ := h.addLine hline
      have hrest := ih hknown hok
      rw [htext] at hrest
      rw [definitionsFrom, ← List.append_assoc]
      exact hrest

end Line

/-! ### Texts that are read -/

theorem known_of_parse {text : String} {l : Listing} (h : Listing.parse text = .ok l) :
    ∃ s : Loader, s.listing = l ∧ Known (definitions text) s := by
  rw [parse_eq] at h
  cases hload : loadRead {} 1 (readLines text.toList) with
  | error e =>
    rw [hload] at h
    cases h
  | ok s =>
    rw [hload] at h
    exact ⟨s, Except.ok.inj h, known_start.loadRead hload⟩

/-- A label of code and, behind it, room under the same name. -/
def Redefined (ds : List Definition) : Prop := ∃ name, [.code name, .room name].Sublist ds

/-- The names in the two tables are those of the definitions, one for each. -/
theorem Known.perm {ds : List Definition} {s : Loader} (h : Known ds s) :
    (codeNames s.listing ++ dataNames s.listing).Perm (ds.map Definition.name) := by
  have hsplit : (ds.filter (·.isCode == true) ++ ds.filter (·.isCode == false)).Perm ds := by
    have hparts := List.filter_append_perm (fun d : Definition => d.isCode == true) ds
    have hother : (fun d : Definition => !(d.isCode == true)) = fun d => d.isCode == false := by
      funext d
      cases d.isCode <;> rfl
    rwa [hother] at hparts
  have hnames := hsplit.map Definition.name
  rw [List.map_append] at hnames
  rw [h.code, h.data, placed, placed]
  exact ((List.reverse_perm _).append (List.reverse_perm _)).trans hnames

theorem Known.nodup_iff {ds : List Definition} {s : Loader} (h : Known ds s) :
    (ds.map Definition.name).Nodup ↔ ¬ Redefined ds := by
  constructor
  · rintro hnodup ⟨name, hsub⟩
    have htwice : [name, name].Nodup := hnodup.sublist (hsub.map Definition.name)
    simp at htwice
  · intro hnot
    refine List.pairwise_map.mpr (List.pairwise_iff_forall_sublist.mpr fun {d d'} hsub hname => ?_)
    obtain ⟨name, rfl, rfl⟩ := List.pairwise_iff_forall_sublist.mp h.apart hsub hname
    exact hnot ⟨name, hsub⟩

/-- Each symbol of a listing has one definition in the text that it was read from. -/
structure DefinedOnce (text : String) (l : Listing) : Prop where
  /-- No name is defined by two lines, whether they are labels or reserve room, and in whichever
  section. -/
  names : ((definitions text).map Definition.name).Nodup
  /-- No name stands for code and for data. -/
  apart : (codeNames l).Disjoint (dataNames l)
  /-- Each line with a definition has given one of the tables one name. -/
  keys : (codeNames l ++ dataNames l).Perm ((definitions text).map Definition.name)

/-- **Each symbol of a text that is read has one definition**, unless a name is a label of code and
room is reserved under it later. -/
theorem symbols_defined_once_iff {text : String} {l : Listing} (h : Listing.parse text = .ok l) :
    DefinedOnce text l ↔ ¬ Redefined (definitions text) := by
  obtain ⟨s, rfl, hknown⟩ := known_of_parse h
  constructor
  · intro honce
    exact hknown.nodup_iff.mp honce.names
  · intro hnot
    have hnames := hknown.nodup_iff.mpr hnot
    have htables := hknown.perm.nodup_iff.mpr hnames
    exact ⟨hnames, List.disjoint_of_nodup_append htables, hknown.perm⟩

/-- A text with a definition of each kind. -/
def threeSymbols : String :=
  ".comm count, 4, 4\n.section .rodata // words\nlimit:\n    .word 5\n" ++
    ".text\nmain: # code\n    ret\n"

theorem threeSymbols_defined_once : ∃ l, Listing.parse threeSymbols = .ok l ∧
    definitions threeSymbols = [.room "count", .data "limit", .code "main"] ∧
      DefinedOnce threeSymbols l := by
  obtain ⟨l, hl⟩ := exists_ok_of_isOk (x := Listing.parse threeSymbols) (by decide +kernel)
  have hdefinitions : definitions threeSymbols = [.room "count", .data "limit", .code "main"] := by
    decide +kernel
  refine ⟨l, hl, hdefinitions, (symbols_defined_once_iff hl).mpr ?_⟩
  rintro ⟨name, hsub⟩
  rw [hdefinitions] at hsub
  have hcode : Definition.code name ∈ [.room "count", .data "limit", .code "main"] :=
    hsub.subset (by simp)
  have hroom : Definition.room name ∈ [.room "count", .data "limit", .code "main"] :=
    hsub.subset (by simp)
  simp only [List.mem_cons, List.not_mem_nil, or_false, reduceCtorEq, false_or,
    Definition.code.injEq, Definition.room.injEq] at hcode hroom
  exact absurd (hcode.symm.trans hroom) (by decide)

/-- Room under the name of a function. -/
def reservedEntry : String := "main:\n    ret\n.comm main, 4\n"

/-- The text is read, and `main` stands for code and for data. -/
theorem reservedEntry_defined_twice :
    ∃ l, Listing.parse reservedEntry = .ok l ∧ "main" ∈ codeNames l ∧
    "main" ∈ dataNames l ∧ ¬ DefinedOnce reservedEntry l := by
  obtain ⟨l, hl⟩ := exists_ok_of_isOk (x := Listing.parse reservedEntry) (by decide +kernel)
  have hdefinitions : definitions reservedEntry = [.code "main", .room "main"] := by decide +kernel
  obtain ⟨s, rfl, hknown⟩ := known_of_parse hl
  rw [hdefinitions] at hknown
  have hcode : "main" ∈ codeNames s.listing := by rw [hknown.code]; decide
  have hdata : "main" ∈ dataNames s.listing := by rw [hknown.data]; decide
  exact ⟨s.listing, hl, hcode, hdata, fun honce => honce.apart hcode hdata⟩

end RvBackend.Asm
