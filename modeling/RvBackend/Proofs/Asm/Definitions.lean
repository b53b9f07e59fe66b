import RvBackend.Proofs.Asm.Bare

/-! # The names that a text defines

A line of a text defines a name if it is a label or reserves room under one; all other lines define
none. A text is refused for a name that is defined twice only if it does define one twice. The text
of a program defines the names of its data, of its functions and of the labels in their code, in
this order.

* `definedBy`: the names that a line defines, as it is read.
* `not_nodup_of_duplicate`: what a duplicate says about the lines of a text.
* `isRead_program`: the definitions of the text of a program.
* `Program.no_duplicate`: a program that defines no name twice is not refused for that. -/

namespace RvBackend.Asm

open Machine

/-! ### Definitions and duplicates -/

/-- The names that a line defines, as it is read. -/
def definedBy (line : List Char) : List String :=
  match Text.stripSuffix [':'] line with
  | some name =>
    if name.isEmpty || name.any (fun c => c == ' ' || c == '\t') then [] else [String.ofList name]
  | none =>
    let (mnemonic, rest) := (Text.cut ' ' line).getD (line, [])
    if String.ofList mnemonic = ".comm" then
      ((splitOperands (Text.trim rest)).head?.map String.ofList).toList
    else []

/-- The names that a loader knows. -/
def labelsIn (s : Loader) : List String :=
  s.listing.codeLabels.map Prod.fst ++ s.listing.dataLabels.map Prod.fst

/-- What a step makes of the names that a loader knows, if the names in `names` are defined by it:
no others are added, and a duplicate is one of them. -/
structure Defines (names : List String) (s : Loader) (result : Except LineFault Loader) : Prop where
  ok : ∀ s', result = .ok s' → labelsIn s' ⊆ names ++ labelsIn s
  duplicate : ∀ name, result = .error (.duplicate name) → name ∈ names ∧ name ∈ labelsIn s

theorem defines_ok {names : List String} {s s' : Loader} (h : labelsIn s' = labelsIn s) :
    Defines names s (.ok s') := by
  refine ⟨?_, fun _ heq => by cases heq⟩
  rintro _ ⟨⟩
  rw [h]
  exact List.subset_append_right _ _

theorem defines_error {names : List String} {s : Loader} {fault : LineFault}
    (h : ∀ name, fault ≠ .duplicate name) : Defines names s (.error fault) :=
  ⟨fun _ heq => (nomatch heq), fun name heq => absurd (Except.error.inj heq) (h name)⟩

theorem addLabel_eq (s : Loader) (line name : List Char) : s.addLabel line name =
    if name.isEmpty || name.any (fun c => c == ' ' || c == '\t') then
    .error (.label (String.ofList line))
    else if (s.listing.codeLabels.lookup (String.ofList name)).isSome ||
        (s.listing.dataLabels.lookup (String.ofList name)).isSome then
      .error (.duplicate (String.ofList name))
    else .ok (labelled s (String.ofList name)) := by
  simp only [Loader.addLabel, labelled]
  split_ifs <;> rfl

theorem labelsIn_labelled (s : Loader) (name : String) :
    labelsIn (labelled s name) ⊆ name :: labelsIn s := by
  unfold labelled
  split
  · exact List.Subset.refl _
  · exact List.perm_middle.subset

theorem defines_addLabel (s : Loader) (line name : List Char) :
    Defines (if name.isEmpty || name.any (fun c => c == ' ' || c == '\t') then []
      else [String.ofList name]) s
      (s.addLabel line name) := by
  rw [addLabel_eq]
  by_cases hinvalid : (name.isEmpty || name.any (fun c => c == ' ' || c == '\t')) = true
  · rw [if_pos hinvalid, if_pos hinvalid]
    exact defines_error fun _ heq => (nomatch heq)
  · rw [if_neg hinvalid, if_neg hinvalid]
    split
    · next hdup =>
      refine ⟨fun _ heq => (nomatch heq), ?_⟩
      rintro _ ⟨⟩
      refine ⟨List.mem_singleton_self _, ?_⟩
      rw [Bool.or_eq_true] at hdup
      rcases hdup with hdup | hdup
      · exact List.mem_append_left _ (mem_of_lookup hdup)
      · exact List.mem_append_right _ (mem_of_lookup hdup)
    · refine ⟨?_, fun _ heq => (nomatch heq)⟩
      rintro _ ⟨⟩
      exact labelsIn_labelled s _

theorem defines_addRoom (s : Loader) (args : List (List Char)) :
    Defines ((args.head?.map String.ofList).toList) s (s.addRoom args) := by
  unfold Loader.addRoom
  split
  · next name size _ =>
    simp only
    split
    · exact defines_error fun _ heq => (nomatch heq)
    · split
      · exact defines_error fun _ heq => (nomatch heq)
      · split
        · next hdup =>
          refine ⟨fun _ heq => (nomatch heq), ?_⟩
          intro name' heq
          cases heq
          exact ⟨List.mem_singleton_self _, List.mem_append_right _ (mem_of_lookup hdup)⟩
        · refine ⟨?_, fun _ heq => (nomatch heq)⟩
          rintro _ ⟨⟩
          exact List.perm_middle.subset
  · exact defines_error fun _ heq => (nomatch heq)

theorem defines_addWords (args : List (List Char)) : ∀ s : Loader,
    Defines [] s (args.foldlM Loader.addWord s) := by
  induction args with
  | nil => exact fun s => defines_ok rfl
  | cons arg args ih =>
    intro s
    rw [List.foldlM_cons]
    cases hword : s.addWord arg with
    | error fault =>
      refine defines_error fun name heq => ?_
      unfold Loader.addWord at hword
      split at hword
      · cases hword; cases heq
      · cases hword
    | ok s' =>
      have hsame : labelsIn s' = labelsIn s := by
        unfold Loader.addWord at hword
        split at hword
        · cases hword
        · cases hword; rfl
      have hrest := ih s'
      refine ⟨?_, ?_⟩
      · rw [← hsame]; exact hrest.ok
      · rw [← hsame]; exact hrest.duplicate

theorem defines_directive (s : Loader) (name : String) (rest : List Char) :
    Defines (if name = ".comm" then ((splitOperands rest).head?.map String.ofList).toList else []) s
      (s.directive name rest) := by
  by_cases hcomm : name = ".comm"
  · subst hcomm
    exact defines_addRoom s (splitOperands rest)
  · rw [if_neg hcomm]
    unfold Loader.directive
    split
    · exact defines_ok rfl
    · exact defines_ok rfl
    · exact defines_ok rfl
    · exact defines_ok rfl
    · exact defines_ok rfl
    · exact absurd rfl hcomm
    · exact defines_addWords _ s
    · exact defines_ok rfl

theorem ne_duplicate_of_parseOperand {cs : List Char} {fault : LineFault}
    (h : parseOperand cs = .error fault) (name : String) : fault ≠ .duplicate name := by
  rintro rfl
  unfold parseOperand at h
  split at h
  · cases h
  · cases hmem : parseMem? cs with
    | none =>
      rw [hmem, Option.getD_none] at h
      unfold parseImmOrLabel at h
      split at h
      · split at h <;> cases h
      · split at h <;> cases h
    | some result =>
      rw [hmem, Option.getD_some] at h
      subst h
      simp only [parseMem?, Option.bind_eq_bind, Option.bind_eq_some_iff, Option.pure_def,
        Option.some.injEq] at hmem
      obtain ⟨_, _, _, _, hmem⟩ := hmem
      split at hmem
      · cases hmem
      · split at hmem
        · cases hmem
        · split at hmem <;> cases hmem

theorem ne_duplicate_of_mapM {css : List (List Char)} {fault : LineFault} :
    css.mapM parseOperand = .error fault → ∀ name, fault ≠ .duplicate name := by
  induction css with
  | nil => exact fun h => by cases h
  | cons cs css ih =>
    intro h
    rw [List.mapM_cons] at h
    cases hhead : parseOperand cs with
    | error fault' =>
      rw [hhead] at h
      cases h
      exact ne_duplicate_of_parseOperand hhead
    | ok o =>
      rw [hhead] at h
      cases htail : css.mapM parseOperand with
      | error fault' =>
        rw [htail] at h
        cases h
        exact ih htail
      | ok os =>
        rw [htail] at h
        cases h

theorem ne_duplicate_of_forM {m : String} {fault : LineFault} : ∀ {os : List Machine.Operand},
    os.forM (checkWidth m) = .error fault → ∀ name, fault ≠ .duplicate name
  | [], h => by cases h
  | o :: os, h => by
    change (checkWidth m o >>= fun _ => os.forM (checkWidth m)) = .error fault at h
    cases hhead : checkWidth m o with
    | error fault' =>
      rw [hhead] at h
      cases h
      rintro name rfl
      unfold checkWidth at hhead
      split at hhead
      · split at hhead <;> cases hhead
      · split at hhead <;> cases hhead
      · cases hhead
    | ok u =>
      rw [hhead] at h
      exact ne_duplicate_of_forM h

theorem defines_addInstruction (s : Loader) (n : ℕ) (m : String) (rest : List Char) :
    Defines [] s (s.addInstruction n m rest) := by
  unfold Loader.addInstruction
  split
  · cases hparse : (splitOperands rest).mapM parseOperand with
    | error fault => exact defines_error (ne_duplicate_of_mapM hparse)
    | ok os =>
      show Defines [] s (os.forM (checkWidth m) >>= fun _ => _)
      cases hwidth : os.forM (checkWidth m) with
      | error fault => exact defines_error (ne_duplicate_of_forM hwidth)
      | ok u => exact defines_ok rfl
  · exact defines_error fun _ heq => (nomatch heq)

/-- A line adds no names but those that it defines, and is refused for a duplicate only if it
defines a name that is known. -/
theorem defines_addLine (s : Loader) (n : ℕ) (line : List Char) :
    Defines (definedBy line) s (s.addLine n line) := by
  unfold Loader.addLine definedBy
  by_cases hempty : line.isEmpty = true
  · rw [if_pos hempty]
    exact defines_ok rfl
  · rw [if_neg hempty]
    cases Text.stripSuffix [':'] line with
    | some name => exact defines_addLabel s line name
    | none =>
      generalize (Text.cut ' ' line).getD (line, []) = parts
      obtain ⟨m, rest⟩ := parts
      simp only
      by_cases hdot : (m.head? == some '.') = true
      · rw [if_pos hdot]
        exact defines_directive s _ _
      · rw [if_neg hdot, if_neg]
        · exact defines_addInstruction s n _ _
        · -- what is no directive does not begin with a point
          intro hcomm
          have hchars := congrArg String.toList hcomm
          rw [String.toList_ofList] at hchars
          rw [hchars] at hdot
          exact hdot rfl

/-- **A text is refused for a duplicate only if its lines define a name twice**, or one that was
known. -/
theorem not_nodup_of_duplicate : ∀ {lines : List (List Char)} {s : Loader} {n : ℕ} {e : ParseError}
    {name : String} {known : List String}, labelsIn s ⊆ known → loadRead s n lines = .error e →
    e.fault = .duplicate name → ¬ (known ++ lines.flatMap definedBy).Nodup
  | [], _, _, _, _, _, _, h, _ => by cases h
  | line :: lines, s, n, e, name, known, hknown, h, hdup => by
    intro hnodup
    rw [List.flatMap_cons, ← List.append_assoc] at hnodup
    have hline := defines_addLine s n line
    rw [loadRead] at h
    cases hadd : s.addLine n line with
    | error fault =>
      rw [hadd] at h
      cases h
      obtain ⟨hnew, hold⟩ := hline.duplicate name (hadd.trans (congrArg _ hdup))
      exact List.disjoint_of_nodup_append hnodup.of_append_left (hknown hold) hnew
    | ok s' =>
      rw [hadd] at h
      refine not_nodup_of_duplicate (fun x hx => ?_) h hdup hnodup
      rcases List.mem_append.mp (hline.ok s' hadd hx) with hx | hx
      · exact List.mem_append_right _ hx
      · exact List.mem_append_left _ (hknown hx)

/-! ### The definitions of a line -/

theorem definedBy_nil : definedBy [] = [] := by decide +kernel

theorem definedBy_of_spaced {w : List Char} (rest : List Char) (hw : ' ' ∉ w)
    (hcomm : w ≠ ".comm".toList) :
    definedBy (w ++ ' ' :: rest) = [] := by
  unfold definedBy
  cases hstrip : Text.stripSuffix [':'] (w ++ ' ' :: rest) with
  | some name =>
    have hany : name.any (fun c => c == ' ' || c == '\t') = true :=
      List.any_eq_true.mpr ⟨' ', blank_mem_of_stripSuffix hstrip, rfl⟩
    simp only [hany, Bool.or_true, if_true]
  | none =>
    rw [Text.cut_append rest hw]
    refine if_neg fun heq => hcomm ?_
    rw [← String.toList_ofList (l := w), heq]

theorem definedBy_of_isWord {w : List Char} (hw : IsWord w) (hcomm : w ≠ ".comm".toList) :
    definedBy w = [] := by
  have hlast : w.getLast? ≠ some ':' :=
    fun h => absurd (hw.2 _ (List.mem_of_getLast? h)) (by decide)
  unfold definedBy
  rw [Text.stripSuffix_of_getLast hlast, Text.cut_of_notMem (hw.notMem (by decide))]
  refine if_neg fun heq => hcomm ?_
  rw [← String.toList_ofList (l := w), heq]

theorem definedBy_directive {front w : List Char} (hfront : ∀ c ∈ front, c = ' ') (hw : IsWord w)
    (hcomm : w ≠ ".comm".toList) (rest : List Char) :
    definedBy (readable (front ++ (w ++ ' ' :: rest))) = [] := by
  rcases readable_directive hfront hw rest with heq | ⟨rest', heq⟩
  · rw [heq, definedBy_of_isWord hw hcomm]
  · rw [heq, definedBy_of_spaced rest' (hw.notMem (by decide)) hcomm]

theorem definedBy_label {name : List Char} (h : IsWord name) :
    definedBy (readable (name ++ [':'])) = [String.ofList name] := by
  have hvalid : (name.isEmpty || name.any (fun c => c == ' ' || c == '\t')) = false := by
    rw [Bool.or_eq_false_iff, List.any_eq_false]
    refine ⟨by simpa using h.1, fun c hc => ?_⟩
    rw [Bool.or_eq_true, beq_iff_eq, beq_iff_eq]
    rintro (rfl | rfl)
    · exact absurd (h.2 _ hc) (by decide)
    · exact absurd (h.2 _ hc) (by decide)
  rw [readable_label h, definedBy, Text.stripSuffix_append]
  simp only [hvalid, Bool.false_eq_true, if_false]

/-- Room under a name defines the name. -/
theorem definedBy_room {w : List Char} {ws : List (List Char)} (hw : IsWord w)
    (hws : ∀ w ∈ ws, IsWord w) :
    definedBy (readable (".comm".toList ++ ' ' :: commaSeparated (w :: ws))) =
      [String.ofList w] := by
  have hall : ∀ v ∈ w :: ws, IsWord v := List.forall_mem_cons.mpr ⟨hw, hws⟩
  have hcomm : IsWord ".comm".toList := ⟨by decide, by decide⟩
  have hop : ".comm".toList ++ ' ' :: commaSeparated (w :: ws) =
      opChars ".comm".toList (w :: ws) := by
    rw [opChars, if_neg (List.cons_ne_nil _ _)]
  have hread : readable (opChars ".comm".toList (w :: ws)) = opChars ".comm".toList (w :: ws) := by
    have hline := trim_opLine hcomm hall
    rw [withoutComment_append _ (by decide), Text.trim, Text.trimLeft_append _ (by decide)] at hline
    exact hline
  obtain ⟨c, hc, hplain⟩ := getLast_commaSeparated hw hws
  have hlast : (".comm".toList ++ ' ' :: commaSeparated (w :: ws)).getLast? ≠ some ':' := by
    rw [List.getLast?_append, List.getLast?_cons, hc]
    rintro heq
    cases heq
    exact absurd hplain (by decide)
  have htrim : Text.trim (commaSeparated (w :: ws)) = commaSeparated (w :: ws) := by
    refine Text.trim_of_ends (fun d hd => isBlank_of_isPlain (head_commaSeparated hw d hd))
      fun d hd => ?_
    rw [hc, Option.mem_some_iff] at hd
    exact isBlank_of_isPlain (hd ▸ hplain)
  have hsplit : splitOperands (commaSeparated (w :: ws)) = w :: ws := by
    have hnil : commaSeparated (w :: ws) ≠ [] := by
      intro hnil
      rw [hnil] at hc
      cases hc
    unfold splitOperands
    rw [htrim, if_neg (by simpa using hnil)]
    exact @splitOn_commaSeparated ws w [] hw hws (by simp) (by simp)
  rw [hop, hread, ← hop, definedBy, Text.stripSuffix_of_getLast hlast,
    Text.cut_append _ (by decide)]
  simp only [Option.getD_some]
  rw [if_pos (by decide), htrim, hsplit]
  rfl

/-! ### The definitions of a text -/

/-- The whole lines `cs` define the names `names`, in this order. -/
def TextDefines (cs : List Char) (names : List String) : Prop :=
  ∃ lines, IsRead cs lines ∧ lines.flatMap definedBy = names

theorem TextDefines.nil : TextDefines [] [] := ⟨[], .nil, rfl⟩

theorem TextDefines.append {cs ds : List Char} {names names' : List String}
    (h : TextDefines cs names) (h' : TextDefines ds names') :
    TextDefines (cs ++ ds) (names ++ names') := by
  obtain ⟨lines, hlines, rfl⟩ := h
  obtain ⟨lines', hlines', rfl⟩ := h'
  exact ⟨lines ++ lines', hlines.append hlines', List.flatMap_append⟩

theorem textDefines_line {cs : List Char} {names : List String} (hnewline : '\n' ∉ cs)
    (h : definedBy (readable cs) = names) : TextDefines (cs ++ ['\n']) names :=
  ⟨_, isRead_line hnewline, by rw [List.flatMap_singleton, h]⟩

theorem textDefines_directive {front w rest : List Char} (hfront : ∀ c ∈ front, c = ' ')
    (hw : IsWord w) (hcomm : w ≠ ".comm".toList) (hrest : '\n' ∉ rest) :
    TextDefines (front ++ (w ++ ' ' :: rest) ++ ['\n']) [] := by
  refine textDefines_line ?_ (definedBy_directive hfront hw hcomm rest)
  simp only [List.mem_append, List.mem_cons, not_or]
  refine ⟨fun hmem => ?_, hw.notMem (by decide), by decide, hrest⟩
  exact absurd (hfront _ hmem) (by decide)

theorem textDefines_label {name : String} (h : IsWord name.toList) :
    TextDefines (name.toList ++ [':'] ++ ['\n']) [name] := by
  refine textDefines_line ?_ ?_
  · rw [List.mem_append, not_or]
    exact ⟨h.notMem (by decide), by decide⟩
  · rw [definedBy_label h, String.ofList_toList]

theorem textDefines_join {α : Type} {text name : α → String} : ∀ {as : List α},
    (∀ a ∈ as, TextDefines (text a).toList [name a]) →
    TextDefines (String.join (as.map text)).toList (as.map name)
  | [], _ => .nil
  | a :: as, h => by
    rw [List.forall_mem_cons] at h
    rw [List.map_cons, String.join_cons, String.toList_append, List.map_cons]
    exact h.1.append (textDefines_join h.2)

/-- The text of parts that can be printed one by one. -/
theorem textDefines_texts {α : Type} {text? : α → Option String} {names : α → List String} :
    ∀ {as : List α} {ts : List String},
    (∀ a ∈ as, ∀ t, text? a = some t → TextDefines t.toList (names a)) →
    as.mapM text? = some ts → TextDefines (String.join ts).toList (as.flatMap names)
  | [], ts, _, h => by
    obtain rfl : [] = ts := Option.some.inj h
    exact .nil
  | a :: as, ts, hall, h => by
    rw [List.forall_mem_cons] at hall
    simp only [List.mapM_cons, Option.bind_eq_bind, Option.bind_eq_some_iff, Option.pure_def,
      Option.some.injEq] at h
    obtain ⟨t, ht, rest, hrest, rfl⟩ := h
    rw [String.join_cons, String.toList_append, List.flatMap_cons]
    exact (hall.1 t ht).append (textDefines_texts hall.2 hrest)

theorem textDefines_file (file : String) :
    TextDefines ("    .file \"" ++ Text.escapeText file ++ "\"\n    .option nopic\n").toList
      [] := by
  refine ⟨_, isRead_file file, ?_⟩
  have hfile : definedBy (fileLine file) = [] := by
    have hchars : ("    .file \"" ++ Text.escapeText file ++ "\"").toList =
        "    ".toList ++
        (".file".toList ++ ' ' :: ('"' :: (Text.escapeText file).toList ++ ['"'])) := by simp
    rw [fileLine, hchars]
    exact definedBy_directive (by decide) ⟨by decide, by decide⟩ (by decide) _
  rw [List.flatMap_cons, hfile, List.nil_append]
  decide +kernel

theorem textDefines_global {g : GlobalVariable} (h : IsWord g.label.toList) :
    TextDefines g.text.toList [g.label] := by
  have hwords : ∀ w ∈ [Text.decimalChars g.size, Text.decimalChars g.align], IsWord w := by
    simp [isWord_decimalChars]
  have hchars : g.text.toList = ".comm".toList ++ ' ' :: commaSeparated
      [g.label.toList, Text.decimalChars g.size, Text.decimalChars g.align] ++ ['\n'] := by
    simp [GlobalVariable.text, commaSeparated, List.intercalate, Text.decimal]
  rw [hchars]
  refine textDefines_line ?_ ?_
  · rw [List.mem_append, List.mem_cons, not_or, not_or]
    refine ⟨by decide, by decide, fun hmem => ?_⟩
    rcases mem_commaSeparated hmem with hmem | hmem | ⟨w, hw, hmem⟩
    · exact absurd hmem (by decide)
    · exact absurd hmem (by decide)
    · exact absurd ((List.forall_mem_cons.mpr ⟨h, hwords⟩ w hw).2 _ hmem) (by decide)
  · rw [definedBy_room h hwords, String.ofList_toList]

theorem textDefines_constant {c : GlobalConstant} (h : IsWord c.label.toList) :
    TextDefines c.text.toList [c.label] := by
  have hname : '\n' ∉ c.label.toList := h.notMem (by decide)
  have hsection : TextDefines (".section    .rodata".toList ++ ['\n']) [] :=
    textDefines_line (by decide) (by decide +kernel)
  have halign : TextDefines ("    .align 2".toList ++ ['\n']) [] :=
    textDefines_line (by decide) (by decide +kernel)
  have hglobl :
      TextDefines ([' ', ' ', ' ', ' '] ++ (".globl".toList ++ ' ' :: (c.label.toList ++ [])) ++
        ['\n']) [] :=
    textDefines_directive (by decide) ⟨by decide, by decide⟩ (by decide) (by rwa [List.append_nil])
  have htype : TextDefines ([' ', ' ', ' ', ' '] ++ (".type".toList ++ ' ' ::
      (c.label.toList ++ ", @object".toList)) ++ ['\n']) [] := by
    refine textDefines_directive (by decide) ⟨by decide, by decide⟩ (by decide) ?_
    rw [List.mem_append, not_or]
    exact ⟨hname, by decide⟩
  have hword :
      TextDefines ([' ', ' ', ' ', ' '] ++ (".word".toList ++ ' ' :: Text.decimalChars c.value) ++
        ['\n']) [] :=
    textDefines_directive (by decide) ⟨by decide, by decide⟩ (by decide)
      ((isWord_decimalChars c.value).notMem (by decide))
  rw [toList_constantText]
  exact hsection.append
    (halign.append (hglobl.append (htype.append ((textDefines_label h).append hword))))

/-! ### The definitions of code -/

/-- An operand whose text does not break its line. -/
def Operand.OneLine (o : Operand) : Prop := ∀ t, o.text? = some t → '\n' ∉ t.toList

/-- A line of code whose text is one line, with a word for its label or its mnemonic. -/
structure Line.OneLine (l : Line) : Prop where
  comment : '\n' ∉ l.comment.toList
  label : ∀ name, l.content = .label name → IsWord name.toList
  op : ∀ m os, l.content = .op m os → IsWord m.toList ∧ m ≠ ".comm" ∧ ∀ o ∈ os, o.OneLine

theorem mem_of_mapM {α β : Type} {f : α → Option β} : ∀ {xs : List α} {ys : List β},
    xs.mapM f = some ys → ∀ y ∈ ys, ∃ x ∈ xs, f x = some y
  | [], ys, h, y, hy => by
    obtain rfl : [] = ys := Option.some.inj h
    exact absurd hy List.not_mem_nil
  | x :: xs, ys, h, y, hy => by
    simp only [List.mapM_cons, Option.bind_eq_bind, Option.bind_eq_some_iff, Option.pure_def,
      Option.some.injEq] at h
    obtain ⟨y', hy', rest, hrest, rfl⟩ := h
    rcases List.mem_cons.mp hy with rfl | hy
    · exact ⟨x, List.mem_cons_self, hy'⟩
    · obtain ⟨x', hx', hx⟩ := mem_of_mapM hrest y hy
      exact ⟨x', List.mem_cons_of_mem _ hx', hx⟩

theorem IsRead.unique {cs : List Char} {lines lines' : List (List Char)} (h : IsRead cs lines)
    (h' : IsRead cs lines') : lines = lines' :=
  List.append_cancel_right (h.readLines.symm.trans h'.readLines)

/-- Printed operands stand in one line, behind a blank if there are any. -/
theorem operandsText_oneLine {os : List Operand} {t : String} (h : Line.operandsText? os = some t)
    (hos : ∀ o ∈ os, o.OneLine) :
    '\n' ∉ t.toList ∧ (t.toList = [] ∨ ∃ rest, t.toList = ' ' :: rest) := by
  cases os with
  | nil =>
    cases h
    exact ⟨by decide, .inl rfl⟩
  | cons o os =>
    simp only [Line.operandsText?, Option.bind_eq_bind, Option.bind_eq_some_iff, Option.pure_def,
      Option.some.injEq] at h
    obtain ⟨texts, htexts, rfl⟩ := h
    have hlines : ∀ text ∈ texts, '\n' ∉ text.toList := by
      intro text hmem
      obtain ⟨o', ho', htext⟩ := mem_of_mapM htexts text hmem
      exact hos o' ho' text htext
    have hchars : (" " ++ ", ".intercalate texts).toList =
        ' ' :: commaSeparated (texts.map String.toList) := by
      simp [commaSeparated, String.toList_intercalate]
    rw [hchars]
    refine ⟨?_, .inr ⟨_, rfl⟩⟩
    rw [List.mem_cons, not_or]
    refine ⟨by decide, fun hmem => ?_⟩
    rcases mem_commaSeparated hmem with hmem | hmem | ⟨w, hw, hmem⟩
    · exact absurd hmem (by decide)
    · exact absurd hmem (by decide)
    · obtain ⟨text, htext, rfl⟩ := List.mem_map.mp hw
      exact hlines text htext hmem

/-- A line without a comment defines its label, if it has one. -/
theorem textDefines_bare {l : Line} {t : String} (hl : l.OneLine) (h : l.bare.text? = some t) :
    TextDefines t.toList (labelsOf [l]) := by
  obtain ⟨content, c⟩ := l
  cases content with
  | blank =>
    obtain rfl : "\n" = t := Option.some.inj h
    exact textDefines_line List.not_mem_nil definedBy_nil
  | label name =>
    obtain rfl : name ++ ":" ++ "" ++ "\n" = t := Option.some.inj h
    have hchars : (name ++ ":" ++ "" ++ "\n").toList = name.toList ++ [':'] ++ ['\n'] := by simp
    rw [hchars]
    exact textDefines_label (hl.label name rfl)
  | op m os =>
    obtain ⟨hword, hcomm, hos⟩ := hl.op m os rfl
    have hcomm' : m.toList ≠ ".comm".toList := fun heq => hcomm (String.toList_inj.mp heq)
    simp only [Line.bare, Line.text?, if_true, Option.bind_eq_bind, Option.bind_eq_some_iff,
      Option.pure_def, Option.some.injEq] at h
    obtain ⟨operands, hoperands, rfl⟩ := h
    obtain ⟨hnewline, hempty | ⟨rest, hrest⟩⟩ := operandsText_oneLine hoperands hos
    · have hchars : ("    " ++ m ++ operands ++ "" ++ "\n").toList = "    ".toList ++ m.toList ++
          ['\n'] := by
        simp [hempty]
      rw [hchars]
      refine textDefines_line ?_ ?_
      · rw [List.mem_append, not_or]
        exact ⟨by decide, hword.notMem (by decide)⟩
      · rw [readable_word (by decide) hword]
        exact definedBy_of_isWord hword hcomm'
    · have hchars : ("    " ++ m ++ operands ++ "" ++ "\n").toList =
          "    ".toList ++ (m.toList ++ ' ' :: rest) ++ ['\n'] := by simp [hrest]
      rw [hchars]
      rw [hrest, List.mem_cons, not_or] at hnewline
      exact textDefines_directive (by decide) hword hcomm' hnewline.2

theorem textDefines_lineText {l : Line} {t : String} (hl : l.OneLine) (h : l.text? = some t) :
    TextDefines t.toList (labelsOf [l]) := by
  obtain ⟨t', ht', lines, hlines, hlines'⟩ := readAlike_line hl.comment h
  obtain ⟨lines'', hbare, hnames⟩ := textDefines_bare hl ht'
  obtain rfl := hbare.unique hlines'
  exact ⟨lines'', hlines, hnames⟩

theorem flatMap_labelsOf (ls : List Line) : ls.flatMap (fun l => labelsOf [l]) = labelsOf ls := by
  induction ls with
  | nil => rfl
  | cons l ls ih =>
    rw [List.flatMap_cons, ih, ← labelsOf_append]
    rfl

theorem textDefines_function {f : Function} {t : String} (hname : IsWord f.name.toList)
    (hlines : ∀ l ∈ f.lines, l.OneLine) (h : f.text? = some t) :
    TextDefines t.toList (labelsOf f.codeLines) := by
  have hnewline : '\n' ∉ f.name.toList := hname.notMem (by decide)
  simp only [Function.text?, Option.bind_eq_bind, Option.bind_eq_some_iff, Option.pure_def,
    Option.some.injEq] at h
  obtain ⟨ts, hts, rfl⟩ := h
  have hheader : TextDefines ".section    .text\n    .align 2\n".toList [] :=
    ⟨[".section    .text".toList, ".align 2".toList], fun rest => rfl, by decide +kernel⟩
  have hglobl : TextDefines (if f.isGlobal then "    .globl " ++ f.name ++ "\n" else "").toList
      [] := by
    split
    · have hchars : ("    .globl " ++ f.name ++ "\n").toList =
          "    ".toList ++ (".globl".toList ++ ' ' :: f.name.toList) ++ ['\n'] := by simp
      rw [hchars]
      exact textDefines_directive (by decide) ⟨by decide, by decide⟩ (by decide) hnewline
    · exact .nil
  have htype : TextDefines ("    .type " ++ f.name ++ ", @function\n").toList [] := by
    have hchars : ("    .type " ++ f.name ++ ", @function\n").toList =
        "    ".toList ++ (".type".toList ++ ' ' :: (f.name.toList ++ ", @function".toList)) ++
        ['\n'] := by simp
    rw [hchars]
    refine textDefines_directive (by decide) ⟨by decide, by decide⟩ (by decide) ?_
    rw [List.mem_append, not_or]
    exact ⟨hnewline, by decide⟩
  have hlabel : TextDefines (f.name ++ ":\n").toList [f.name] := by
    have hchars : (f.name ++ ":\n").toList = f.name.toList ++ [':'] ++ ['\n'] := by simp
    rw [hchars]
    exact textDefines_label hname
  have hcode := textDefines_texts (fun l hl _ ht => textDefines_lineText (hlines l hl) ht) hts
  rw [flatMap_labelsOf] at hcode
  have hall := (((hheader.append hglobl).append htype).append hlabel).append hcode
  simp only [← String.toList_append, ← String.append_assoc] at hall
  exact hall

/-! ### Programs -/

/-- The names that a program defines, in the order of its text. -/
def Program.definitions (p : Program) : List String := p.dataNames ++ labelsOf p.codeLines

/-- The text of a program defines its names. -/
theorem textDefines_program {p : Program} {text : String}
    (hdata : ∀ name ∈ p.dataNames, IsWord name.toList)
    (hnames : ∀ f ∈ p.functions, IsWord f.name.toList)
    (hlines : ∀ f ∈ p.functions, ∀ l ∈ f.lines, l.OneLine) (h : p.text? = some text) :
    TextDefines text.toList p.definitions := by
  simp only [Program.text?, Option.bind_eq_bind, Option.bind_eq_some_iff, Option.pure_def,
    Option.some.injEq] at h
  obtain ⟨ts, hts, rfl⟩ := h
  unfold Program.dataNames at hdata
  rw [List.forall_mem_append] at hdata
  have hglobals : TextDefines (String.join (p.globals.map GlobalVariable.text)).toList
      (p.globals.map (·.label)) :=
    textDefines_join fun g hg => textDefines_global (hdata.1 g.label (List.mem_map_of_mem hg))
  have hconstants : TextDefines (String.join (p.constants.map GlobalConstant.text)).toList
      (p.constants.map (·.label)) :=
    textDefines_join fun c hc => textDefines_constant (hdata.2 c.label (List.mem_map_of_mem hc))
  have hfunctions := textDefines_texts
    (fun f hf _ ht => textDefines_function (hnames f hf) (hlines f hf) ht) hts
  have hlabels : ∀ fs : List Function, fs.flatMap (fun f => labelsOf f.codeLines) =
      labelsOf (fs.flatMap Function.codeLines) := by
    intro fs
    induction fs with
    | nil => rfl
    | cons f fs ih => rw [List.flatMap_cons, List.flatMap_cons, labelsOf_append, ih]
  rw [hlabels] at hfunctions
  have hall := (((textDefines_file p.file).append hglobals).append hconstants).append hfunctions
  simp only [← String.toList_append] at hall
  exact hall

/-- **A program that defines no name twice is not refused for a duplicate**, whatever its text is
refused for. -/
theorem Program.no_duplicate {p : Program} {text : String}
    (hdata : ∀ name ∈ p.dataNames, IsWord name.toList)
    (hnames : ∀ f ∈ p.functions, IsWord f.name.toList)
    (hlines : ∀ f ∈ p.functions, ∀ l ∈ f.lines, l.OneLine) (hnodup : p.definitions.Nodup)
    (h : p.text? = some text) {e : ParseError} (herror : Listing.parse text = .error e)
    (name : String) : e.fault ≠ .duplicate name := by
  intro hdup
  obtain ⟨lines, hread, hdefinitions⟩ := textDefines_program hdata hnames hlines h
  have hload : loadRead {} 1 (lines ++ [[]]) = .error e := by
    rw [parse_eq, hread.readLines] at herror
    cases hload : loadRead {} 1 (lines ++ [[]]) with
    | error e' =>
      rw [hload] at herror
      exact congrArg Except.error (Except.error.inj herror)
    | ok s =>
      rw [hload] at herror
      cases herror
  refine not_nodup_of_duplicate (List.Subset.refl []) hload hdup ?_
  rw [List.nil_append, List.flatMap_append, hdefinitions, List.flatMap_singleton, definedBy_nil,
    List.append_nil]
  exact hnodup

end RvBackend.Asm
