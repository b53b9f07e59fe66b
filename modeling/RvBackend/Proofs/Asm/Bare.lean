import RvBackend.Proofs.Asm.Reading

/-! # Programs without comments and without the name of their file

Two texts in a printed program are not the assembler's: the comments of its lines and the name of
its file. A program without both is read as the program with them, line by line, unless a comment
breaks its line or the line with the name of the file is taken for a label.

* `Program.bare` leaves out the comments and the name of the file.
* `ReadAsLabel`: the line with the name of the file, cut where a comment seems to begin, ends with a
  colon.
* `parse_bare`: the listing of a program is that of the bare one, or the first line is refused. -/

namespace RvBackend.Asm

open Machine

/-- The line without its comment. -/
def Line.bare (l : Line) : Line := { l with comment := "" }

/-- The function with other lines in the place of its own. -/
def Function.mapLines (g : Line → Line) (f : Function) : Function :=
  { f with lines := f.lines.map g }

/-- The program with other lines in the place of its own. -/
def Program.mapLines (g : Line → Line) (p : Program) : Program :=
  { p with functions := p.functions.map (Function.mapLines g) }

/-- The program without comments and without the name of its file. -/
def Program.bare (p : Program) : Program := { p.mapLines Line.bare with file := "" }

theorem codeLines_mapLines {g : Line → Line} (hg : ∀ name, g (.label name) = .label name)
    (p : Program) :
    (p.mapLines g).codeLines = p.codeLines.map g := by
  simp only [Program.codeLines, Program.mapLines, List.flatMap_map, List.map_flatMap]
  refine List.flatMap_congr fun f _ => ?_
  simp only [Function.codeLines, Function.mapLines, List.map_cons, hg]

theorem labelsOf_map {g : Line → Line} (hg : ∀ l, labelsOf [g l] = labelsOf [l]) :
    ∀ ls : List Line, labelsOf (ls.map g) = labelsOf ls
  | [] => rfl
  | l :: ls => by
    have hcons := labelsOf_append [g l] (ls.map g)
    rw [hg, labelsOf_map hg ls, ← labelsOf_append] at hcons
    exact hcons

theorem text?_mapLines {g : Line → Line} (hg : ∀ l, (g l).text? = l.text?) (p : Program) :
    (p.mapLines g).text? = p.text? := by
  have hlines : ∀ ls : List Line, (ls.map g).mapM Line.text? = ls.mapM Line.text? := by
    intro ls
    rw [List.mapM_map]
    exact congrArg (fun text? => ls.mapM text?) (funext hg)
  have hfunctions : ∀ fs : List Function,
      (fs.map (Function.mapLines g)).mapM Function.text? = fs.mapM Function.text? := by
    intro fs
    rw [List.mapM_map]
    refine congrArg (fun text? => fs.mapM text?) (funext fun f => ?_)
    simp only [Function.comp_apply, Function.text?, Function.mapLines, hlines]
    rfl
  simp only [Program.text?, Program.mapLines, hfunctions]

/-- Parts that can be printed if others in their place can. -/
theorem exists_mapM_of_map {α : Type} {text? : α → Option String} {g : α → α}
    (hg : ∀ a t, text? (g a) = some t → ∃ t', text? a = some t') :
    ∀ {as : List α} {ts : List String},
    (as.map g).mapM text? = some ts → ∃ ts', as.mapM text? = some ts'
  | [], _, _ => ⟨[], rfl⟩
  | a :: as, ts, h => by
    simp only [List.map_cons, List.mapM_cons, Option.bind_eq_bind, Option.bind_eq_some_iff,
      Option.pure_def, Option.some.injEq] at h
    obtain ⟨t, ht, rest, hrest, -⟩ := h
    obtain ⟨t', ht'⟩ := hg a t ht
    obtain ⟨rest', hrest'⟩ := exists_mapM_of_map hg hrest
    exact ⟨t' :: rest', by simp [List.mapM_cons, ht', hrest']⟩

/-- A program can be printed if it can be printed without its comments. -/
theorem exists_text_of_bare {p : Program} {t : String} (h : p.bare.text? = some t) :
    ∃ text, p.text? = some text := by
  have hline : ∀ (l : Line) (t : String), l.bare.text? = some t → ∃ t', l.text? = some t' := by
    intro l t ht
    obtain ⟨content, c⟩ := l
    cases content with
    | blank => exact ⟨_, rfl⟩
    | label name => exact ⟨_, rfl⟩
    | op m os =>
      simp only [Line.bare, Line.text?, Option.bind_eq_bind, Option.bind_eq_some_iff] at ht
      obtain ⟨operands, hoperands, -⟩ := ht
      simp [Line.text?, hoperands]
  have hfunction : ∀ (f : Function) (t : String), (f.mapLines Line.bare).text? = some t →
      ∃ t', f.text? = some t' := by
    intro f t ht
    simp only [Function.text?, Function.mapLines, Option.bind_eq_bind,
      Option.bind_eq_some_iff] at ht
    obtain ⟨ts, hts, -⟩ := ht
    obtain ⟨ts', hts'⟩ := exists_mapM_of_map hline hts
    simp [Function.text?, hts']
  simp only [Program.text?, Program.bare, Program.mapLines, Option.bind_eq_bind,
    Option.bind_eq_some_iff] at h
  obtain ⟨ts, hts, -⟩ := h
  obtain ⟨ts', hts'⟩ := exists_mapM_of_map hfunction hts
  simp [Program.text?, hts']

/-! ### Texts that are read alike -/

/-- Two texts of whole lines in which the same is read. -/
def ReadAlike (t t' : String) : Prop := ∃ lines, IsRead t.toList lines ∧ IsRead t'.toList lines

theorem ReadAlike.append {t t' u u' : String} (h : ReadAlike t t') (h' : ReadAlike u u') :
    ReadAlike (t ++ u) (t' ++ u') := by
  obtain ⟨lines, ht, ht'⟩ := h
  obtain ⟨lines', hu, hu'⟩ := h'
  refine ⟨lines ++ lines', ?_, ?_⟩
  · rw [String.toList_append]; exact ht.append hu
  · rw [String.toList_append]; exact ht'.append hu'

theorem ReadAlike.empty : ReadAlike "" "" := ⟨[], .nil, .nil⟩

theorem readAlike_lines (t : String) : ReadAlike (t ++ "\n") (t ++ "\n") := by
  have hread : IsRead (t ++ "\n").toList (readLines t.toList) := by
    rw [String.toList_append]
    exact isRead_lines t.toList
  exact ⟨_, hread, hread⟩

theorem readAlike_self : ∀ {ts : List String}, (∀ t ∈ ts, ∃ front, t = front ++ "\n") →
    ReadAlike (String.join ts) (String.join ts)
  | [], _ => .empty
  | t :: ts, h => by
    rw [List.forall_mem_cons] at h
    obtain ⟨⟨front, rfl⟩, hrest⟩ := h
    rw [String.join_cons]
    exact (readAlike_lines front).append (readAlike_self hrest)

/-- A comment behind a line, with what leads to it. -/
theorem readAlike_comment (t : String) {c : String} (hc : '\n' ∉ c.toList) :
    ReadAlike (t ++ (if c = "" then "" else "  // " ++ c) ++ "\n") (t ++ "" ++ "\n") := by
  by_cases hempty : c = ""
  · rw [if_pos hempty]
    exact readAlike_lines _
  · refine ⟨readLines t.toList, ?_, ?_⟩
    · have hspace : '\n' ∉ ' ' :: c.toList := by
        rw [List.mem_cons, not_or]
        exact ⟨by decide, hc⟩
      have hchars : (t ++ (if c = "" then "" else "  // " ++ c) ++ "\n").toList =
          t.toList ++ ' ' :: ' ' :: '/' :: '/' :: ' ' :: c.toList ++ ['\n'] := by simp [hempty]
      rw [hchars, ← readLines_comment hspace]
      exact isRead_lines _
    · rw [String.append_empty, String.toList_append]
      exact isRead_lines _

/-! ### Lines, functions and programs -/

/-- A line without its comment is read as the line with it. -/
theorem readAlike_line {l : Line} {t : String} (hc : '\n' ∉ l.comment.toList)
    (h : l.text? = some t) :
    ∃ t', l.bare.text? = some t' ∧ ReadAlike t t' := by
  obtain ⟨content, c⟩ := l
  cases content with
  | blank =>
    refine ⟨"\n", rfl, ?_⟩
    obtain rfl : (if c = "" then "" else "// " ++ c) ++ "\n" = t := Option.some.inj h
    by_cases hempty : c = ""
    · rw [if_pos hempty]
      exact readAlike_lines ""
    · have hread : IsRead ('/' :: '/' :: ' ' :: c.toList ++ ['\n']) [[]] := by
        refine isRead_line ?_
        simp only [List.mem_cons, not_or]
        exact ⟨by decide, by decide, by decide, hc⟩
      refine ⟨[[]], ?_, isRead_line List.not_mem_nil⟩
      rw [if_neg hempty]
      simpa using hread
  | label name =>
    refine ⟨name ++ ":" ++ "" ++ "\n", rfl, ?_⟩
    obtain rfl : name ++ ":" ++ (if c = "" then "" else "  // " ++ c) ++ "\n" = t :=
      Option.some.inj h
    exact readAlike_comment _ hc
  | op m os =>
    simp only [Line.text?, Option.bind_eq_bind, Option.bind_eq_some_iff, Option.pure_def,
      Option.some.injEq] at h
    obtain ⟨operands, hoperands, rfl⟩ := h
    refine ⟨"    " ++ m ++ operands ++ "" ++ "\n", ?_, readAlike_comment _ hc⟩
    simp [Line.bare, Line.text?, hoperands]

/-- Parts of a text that are read alike one by one. -/
theorem readAlike_texts {α : Type} {text? : α → Option String} {g : α → α} :
    ∀ {as : List α} {ts : List String},
    (∀ a ∈ as, ∀ t, text? a = some t → ∃ t', text? (g a) = some t' ∧ ReadAlike t t') →
    as.mapM text? = some ts →
    ∃ ts', (as.map g).mapM text? = some ts' ∧ ReadAlike (String.join ts) (String.join ts')
  | [], ts, _, h => by
    obtain rfl : [] = ts := Option.some.inj h
    exact ⟨[], rfl, .empty⟩
  | a :: as, ts, hall, h => by
    rw [List.forall_mem_cons] at hall
    simp only [List.mapM_cons, Option.bind_eq_bind, Option.bind_eq_some_iff, Option.pure_def,
      Option.some.injEq] at h
    obtain ⟨t, ht, rest, hrest, rfl⟩ := h
    obtain ⟨t', ht', halike⟩ := hall.1 t ht
    obtain ⟨rest', hrest', halikes⟩ := readAlike_texts hall.2 hrest
    refine ⟨t' :: rest', ?_, ?_⟩
    · simp [List.mapM_cons, ht', hrest']
    · rw [String.join_cons, String.join_cons]
      exact halike.append halikes

theorem readAlike_function {f : Function} {t : String} (hc : ∀ l ∈ f.lines, '\n' ∉ l.comment.toList)
    (h : f.text? = some t) : ∃ t', (f.mapLines Line.bare).text? = some t' ∧ ReadAlike t t' := by
  simp only [Function.text?, Option.bind_eq_bind, Option.bind_eq_some_iff, Option.pure_def,
    Option.some.injEq] at h
  obtain ⟨ts, hts, rfl⟩ := h
  obtain ⟨ts', hts', halike⟩ := readAlike_texts (fun l hl _ ht => readAlike_line (hc l hl) ht) hts
  have hheader : ReadAlike
      (".section    .text\n    .align 2\n" ++
        (if f.isGlobal then "    .globl " ++ f.name ++ "\n" else "") ++
        "    .type " ++ f.name ++ ", @function\n" ++ f.name ++ ":\n")
      (".section    .text\n    .align 2\n" ++
        (if f.isGlobal then "    .globl " ++ f.name ++ "\n" else "") ++
        "    .type " ++ f.name ++ ", @function\n" ++ f.name ++ ":\n") := by
    have hcolon : ":\n" = ":" ++ "\n" := rfl
    rw [hcolon, ← String.append_assoc]
    exact readAlike_lines _
  refine ⟨_, ?_, hheader.append halike⟩
  simp only [Function.text?, Function.mapLines, hts', Option.bind_eq_bind, Option.bind_some,
    Option.pure_def]
  rfl

/-! ### The line with the name of the file -/

/-- What is read of the line with the name of the file. -/
def fileLine (file : String) : List Char :=
  readable ("    .file \"" ++ Text.escapeText file ++ "\"").toList

/-- The line with the name of the file is taken for a label. -/
def ReadAsLabel (file : String) : Prop := (fileLine file).getLast? = some ':'

instance (file : String) : Decidable (ReadAsLabel file) :=
  inferInstanceAs (Decidable ((fileLine file).getLast? = some ':'))

theorem newline_notMem_fileText (file : String) :
    '\n' ∉ ("    .file \"" ++ Text.escapeText file ++ "\"").toList := by
  rw [String.toList_append, String.toList_append, escapeText_eq]
  simp only [List.mem_append, List.mem_flatMap, not_or, not_exists, not_and]
  exact ⟨⟨by decide, fun c _ hc => (mem_escapeChar hc).1 rfl⟩, by decide⟩

theorem isRead_file (file : String) :
    IsRead ("    .file \"" ++ Text.escapeText file ++ "\"\n    .option nopic\n").toList
      [fileLine file, ".option nopic".toList] := by
  have hoption : IsRead ("    .option nopic".toList ++ ['\n']) [".option nopic".toList] :=
    isRead_line (by decide)
  have hchars : ("    .file \"" ++ Text.escapeText file ++ "\"\n    .option nopic\n").toList =
      (("    .file \"" ++ Text.escapeText file ++ "\"").toList ++ ['\n']) ++
        ("    .option nopic".toList ++ ['\n']) := by simp
  rw [hchars]
  exact (isRead_line (newline_notMem_fileText file)).append hoption

/-- A label has no blank in it, so a line of two words with a colon behind them is none. -/
theorem blank_mem_of_stripSuffix {w rest name : List Char}
    (h : Text.stripSuffix [':'] (w ++ ' ' :: rest) = some name) : ' ' ∈ name := by
  have hmem : ' ' ∈ name ++ [':'] := by
    rw [← Text.eq_append_of_stripSuffix h]
    exact List.mem_append_right _ List.mem_cons_self
  rcases List.mem_append.mp hmem with hmem | hmem
  · exact hmem
  · exact absurd hmem (by decide)

theorem addLabel_of_blank {s : Loader} {line name : List Char} (h : ' ' ∈ name) :
    s.addLabel line name = .error (.label (String.ofList line)) := by
  have hany : name.any (fun c => c == ' ' || c == '\t') = true := List.any_eq_true.mpr ⟨' ', h, rfl⟩
  unfold Loader.addLabel
  rw [if_pos (by rw [hany, Bool.or_true])]
  rfl

/-- A line of the directive `.file` is passed over, or refused as a label if it ends with a
colon. -/
theorem addLine_directive {s : Loader} {n : ℕ} {line : List Char}
    (h : line = ".file".toList ∨ ∃ rest, line = ".file".toList ++ ' ' :: rest) : s.addLine n line =
      if line.getLast? = some ':' then .error (.label (String.ofList line)) else .ok s := by
  rcases h with rfl | ⟨rest, rfl⟩
  · rfl
  · unfold Loader.addLine
    rw [if_neg (by simp)]
    split
    · next name hname =>
      rw [addLabel_of_blank (blank_mem_of_stripSuffix hname), if_pos]
      rw [Text.eq_append_of_stripSuffix hname, List.getLast?_concat]
    · next hname =>
      have hlast : (".file".toList ++ ' ' :: rest).getLast? ≠ some ':' := by
        intro hlast
        obtain ⟨front, hfront⟩ := List.getLast?_eq_some_iff.mp hlast
        rw [hfront, Text.stripSuffix_append] at hname
        cases hname
      rw [if_neg hlast, Text.cut_append rest (by decide)]
      rfl

theorem addLine_file (s : Loader) (n : ℕ) (file : String) : s.addLine n (fileLine file) =
    if ReadAsLabel file then .error (.label (String.ofList (fileLine file))) else .ok s := by
  have hchars : ("    .file \"" ++ Text.escapeText file ++ "\"").toList =
      "    ".toList ++
      (".file".toList ++ ' ' :: ('"' :: (Text.escapeText file).toList ++ ['"'])) := by simp
  have hword : IsWord ".file".toList := ⟨by decide, by decide⟩
  have hline :=
    readable_directive (w := ".file".toList) (by decide : ∀ c ∈ "    ".toList, c = ' ') hword
      ('"' :: (Text.escapeText file).toList ++ ['"'])
  rw [← hchars] at hline
  exact addLine_directive hline

theorem loadRead_file (file : String) (lines : List (List Char)) :
    loadRead {} 1 (fileLine file :: lines) =
    if ReadAsLabel file then .error ⟨1, .label (String.ofList (fileLine file))⟩
      else loadRead {} 2 lines := by
  rw [loadRead, addLine_file]
  by_cases h : ReadAsLabel file
  · rw [if_pos h, if_pos h]
  · rw [if_neg h, if_neg h]

/-! ### Programs -/

/-- **The listing of a program is that of the bare one**, unless the line with the name of the file
is taken for a label, which is refused. -/
theorem parse_bare {p : Program} {text : String}
    (hc : ∀ f ∈ p.functions, ∀ l ∈ f.lines, '\n' ∉ l.comment.toList) (h : p.text? = some text) :
    ∃ bareText, p.bare.text? = some bareText ∧ Listing.parse text =
      if ReadAsLabel p.file then .error ⟨1, .label (String.ofList (fileLine p.file))⟩
      else Listing.parse bareText := by
  simp only [Program.text?, Option.bind_eq_bind, Option.bind_eq_some_iff, Option.pure_def,
    Option.some.injEq] at h
  obtain ⟨ts, hts, rfl⟩ := h
  obtain ⟨ts', hts', halike⟩ :=
    readAlike_texts (fun f hf _ ht => readAlike_function (hc f hf) ht) hts
  have hglobals := @readAlike_self (p.globals.map GlobalVariable.text) fun t ht => by
    obtain ⟨g, -, rfl⟩ := List.mem_map.mp ht
    exact ⟨_, rfl⟩
  have hconstants := @readAlike_self (p.constants.map GlobalConstant.text) fun t ht => by
    obtain ⟨c, -, rfl⟩ := List.mem_map.mp ht
    exact ⟨_, rfl⟩
  obtain ⟨lines, hlines, hlines'⟩ := (hglobals.append hconstants).append halike
  refine ⟨"    .file \"" ++ Text.escapeText "" ++ "\"\n    .option nopic\n" ++
    String.join (p.globals.map GlobalVariable.text) ++
    String.join (p.constants.map GlobalConstant.text) ++ String.join ts', ?_, ?_⟩
  · simp only [Program.text?, Program.bare, Program.mapLines, hts', Option.bind_eq_bind,
      Option.bind_some, Option.pure_def]
  -- both texts are the same behind their first lines, and the first line of the bare one is passed
  -- over
  · have hread := ((isRead_file p.file).append hlines).readLines
    have hread' := ((isRead_file "").append hlines').readLines
    have hchars : ∀ (file : String) (us : List String),
        ("    .file \"" ++ Text.escapeText file ++ "\"\n    .option nopic\n" ++
          String.join (p.globals.map GlobalVariable.text) ++
          String.join (p.constants.map GlobalConstant.text) ++ String.join us).toList =
        ("    .file \"" ++ Text.escapeText file ++ "\"\n    .option nopic\n").toList ++
          (String.join (p.globals.map GlobalVariable.text) ++
            String.join (p.constants.map GlobalConstant.text) ++ String.join us).toList := by
      intro file us
      simp only [String.toList_append, List.append_assoc]
    rw [parse_eq, parse_eq, hchars, hchars, hread, hread']
    simp only [List.cons_append]
    rw [loadRead_file, loadRead_file, if_neg (by decide +kernel : ¬ ReadAsLabel "")]
    by_cases hlabel : ReadAsLabel p.file
    · rw [if_pos hlabel, if_pos hlabel]
      rfl
    · rw [if_neg hlabel, if_neg hlabel]

end RvBackend.Asm
