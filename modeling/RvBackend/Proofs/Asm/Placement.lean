import RvBackend.Proofs.Asm.Definitions
import RvBackend.Proofs.Asm.Refusal
import RvBackend.Proofs.Machine.Instructions

/-! # Where lines stand in an accepted text

A text that is accepted has been read line by line, and no line takes back what an earlier one has
made: an instruction keeps its number, and a label the instruction behind it. So every part of the
code of a function has its place among the instructions, whatever the other lines of the text are.

* `Retains`: what later lines keep of a listing.
* `Placed code i lines j`: the lines have been read as the instructions from number `i` up to number
  `j`.
* `placed_function`: the lines of each function have a place, `Placed.append`: and so have its
  parts.
* `Placed.codeAt`: lines that can be read in one way only are found at their place. -/

namespace RvBackend.Asm

open Machine

/-! ### Nothing is taken back -/

/-- A listing holds the instructions of another one first, and all its labels of code. -/
structure Retains (c c' : Listing) : Prop where
  instructions : c.instructions.toList <+: c'.instructions.toList
  codeLabels : ∀ {name : String} {i : ℕ}, c.codeLabels.lookup name = some i →
    c'.codeLabels.lookup name = some i

theorem Retains.refl (c : Listing) : Retains c c := ⟨List.prefix_rfl, fun h => h⟩

theorem Retains.trans {c c' c'' : Listing} (h : Retains c c') (h' : Retains c' c'') :
    Retains c c'' :=
  ⟨h.instructions.trans h'.instructions, fun hname => h'.codeLabels (h.codeLabels hname)⟩

theorem Retains.size_le {c c' : Listing} (h : Retains c c') :
    c.instructions.size ≤ c'.instructions.size := by
  rw [← Array.length_toList, ← Array.length_toList]
  exact h.instructions.length_le

theorem Retains.getElem? {c c' : Listing} (h : Retains c c') {i : ℕ} {ins : Instruction}
    (hins : c.instructions[i]? = some ins) : c'.instructions[i]? = some ins := by
  rw [← Array.getElem?_toList] at hins ⊢
  obtain ⟨is, his⟩ := h.instructions
  rw [← his, List.getElem?_append_left (List.getElem?_eq_some_iff.mp hins).1]
  exact hins

theorem retains_of_same {c c' : Listing} (hinstructions : c'.instructions = c.instructions)
    (hlabels : c'.codeLabels = c.codeLabels) : Retains c c' :=
  ⟨hinstructions ▸ List.prefix_rfl, fun h => hlabels ▸ h⟩

theorem retains_labelled {s : Loader} {name : String}
    (hfresh : s.listing.codeLabels.lookup name = none) :
    Retains s.listing (labelled s name).listing := by
  unfold labelled
  split
  · refine ⟨List.prefix_rfl, fun {name'} {i} hname' => ?_⟩
    have hne : name' ≠ name := by
      rintro rfl
      rw [hfresh] at hname'
      cases hname'
    show List.lookup name' ((name, _) :: _) = some i
    rw [List.lookup_cons, beq_false_of_ne hne]
    exact hname'
  · exact retains_of_same rfl rfl

theorem addLabel_of_ok {s s' : Loader} {line name : List Char} (h : s.addLabel line name = .ok s') :
    s' = labelled s (String.ofList name) ∧
      s.listing.codeLabels.lookup (String.ofList name) = none := by
  rw [addLabel_eq] at h
  split at h
  · cases h
  · split at h
    · cases h
    · next hdup =>
      rw [Bool.not_eq_true, Bool.or_eq_false_iff, Option.isSome_eq_false_iff,
        Option.isNone_iff_eq_none] at hdup
      exact ⟨(Except.ok.inj h).symm, hdup.1⟩

theorem retains_addRoom {s s' : Loader} {args : List (List Char)} (h : s.addRoom args = .ok s') :
    Retains s.listing s'.listing := by
  unfold Loader.addRoom at h
  split at h
  · simp only at h
    split at h
    · cases h
    · split at h
      · cases h
      · split at h
        · cases h
        · cases h
          exact retains_of_same rfl rfl
  · cases h

theorem retains_addWords :
    ∀ {args : List (List Char)} {s s' : Loader}, args.foldlM Loader.addWord s = .ok s' →
    Retains s.listing s'.listing
  | [], s, s', h => by
    obtain rfl : s = s' := Except.ok.inj h
    exact .refl _
  | arg :: args, s, s', h => by
    rw [List.foldlM_cons] at h
    cases hword : s.addWord arg with
    | error fault =>
      rw [hword] at h
      cases h
    | ok s₁ =>
      rw [hword] at h
      have hrest : args.foldlM Loader.addWord s₁ = .ok s' := h
      have hsame : Retains s.listing s₁.listing := by
        unfold Loader.addWord at hword
        split at hword
        · cases hword
        · cases hword
          exact retains_of_same rfl rfl
      exact hsame.trans (retains_addWords hrest)

theorem retains_directive {s s' : Loader} {name : String} {rest : List Char}
    (h : s.directive name rest = .ok s') :
    Retains s.listing s'.listing := by
  unfold Loader.directive at h
  split at h
  · cases h; exact retains_of_same rfl rfl
  · cases h; exact retains_of_same rfl rfl
  · cases h; exact retains_of_same rfl rfl
  · cases h; exact retains_of_same rfl rfl
  · cases h; exact retains_of_same rfl rfl
  · exact retains_addRoom h
  · exact retains_addWords h
  · cases h; exact .refl _

/-- An instruction that is accepted stands in code, and comes behind the others. -/
theorem addInstruction_of_ok {s s' : Loader} {n : ℕ} {m : String} {rest : List Char}
    (h : s.addInstruction n m rest = .ok s') :
    s.inText = true ∧ ∃ os, (splitOperands rest).mapM parseOperand = .ok os ∧
      s' = { s with
        listing.instructions :=
        s.listing.instructions.push { line := n, mnemonic := m, operands := os } } := by
  unfold Loader.addInstruction at h
  split at h
  · next htext =>
    cases hparse : (splitOperands rest).mapM parseOperand with
    | error fault =>
      rw [hparse] at h
      cases h
    | ok os =>
      rw [hparse] at h
      change (os.forM (checkWidth m) >>= fun _ => _) = _ at h
      cases hwidth : os.forM (checkWidth m) with
      | error fault =>
        rw [hwidth] at h
        cases h
      | ok u =>
        rw [hwidth] at h
        exact ⟨htext, os, rfl, (Except.ok.inj h).symm⟩
  · cases h

theorem retains_push {s : Loader} (ins : Instruction) :
    Retains s.listing { s.listing with instructions := s.listing.instructions.push ins } :=
  ⟨⟨[ins], Array.toList_push.symm⟩, fun h => h⟩

/-- **A line takes nothing back.** -/
theorem retains_addLine {s s' : Loader} {n : ℕ} {line : List Char} (h : s.addLine n line = .ok s') :
    Retains s.listing s'.listing := by
  unfold Loader.addLine at h
  split at h
  · cases h
    exact .refl _
  · split at h
    · obtain ⟨rfl, hfresh⟩ := addLabel_of_ok h
      exact retains_labelled hfresh
    · simp only at h
      split at h
      · exact retains_directive h
      · obtain ⟨-, os, -, rfl⟩ := addInstruction_of_ok h
        exact retains_push _

theorem loadRead_cons_eq_ok_iff {s s' : Loader} {n : ℕ} {line : List Char}
    {lines : List (List Char)} :
    loadRead s n (line :: lines) = .ok s' ↔ ∃ s₁, s.addLine n line = .ok s₁ ∧
      loadRead s₁ (n + 1) lines = .ok s' := by
  rw [loadRead]
  cases s.addLine n line with
  | error fault => simp
  | ok s₁ => simp

/-- Lines take nothing back. -/
theorem retains_loadRead :
    ∀ {lines : List (List Char)} {s s' : Loader} {n : ℕ}, loadRead s n lines = .ok s' →
    Retains s.listing s'.listing
  | [], s, s', _, h => by
    obtain rfl : s = s' := Except.ok.inj h
    exact .refl _
  | line :: lines, s, s', n, h => by
    obtain ⟨s₁, hline, hrest⟩ := loadRead_cons_eq_ok_iff.mp h
    exact (retains_addLine hline).trans (retains_loadRead hrest)

/-- What stands before other lines is read first. -/
theorem loadRead_append_eq_ok_iff {lines' : List (List Char)} :
    ∀ {lines : List (List Char)} {s s' : Loader} {n : ℕ},
    loadRead s n (lines ++ lines') = .ok s' ↔
      ∃ s₁, loadRead s n lines = .ok s₁ ∧ loadRead s₁ (n + lines.length) lines' = .ok s'
  | [], s, s', n => by simp [loadRead]
  | line :: lines, s, s', n => by
    simp only [List.cons_append, loadRead_cons_eq_ok_iff, loadRead_append_eq_ok_iff,
      List.length_cons]
    constructor
    · rintro ⟨s₁, hline, s₂, hlines, hrest⟩
      exact ⟨s₂, ⟨s₁, hline, hlines⟩, by rwa [Nat.add_right_comm] at hrest⟩
    · rintro ⟨s₂, ⟨s₁, hline, hlines⟩, hrest⟩
      exact ⟨s₁, hline, s₂, hlines, by rwa [Nat.add_right_comm]⟩

/-! ### Places -/

/-- The lines have been read as the instructions from number `i` up to number `j`: maybe as more
lines than they are, if a name in them breaks a line. -/
def Placed (code : Listing) (i : ℕ) (lines : List Line) (j : ℕ) : Prop :=
  ∃ (ts : List String) (read : List (List Char)) (s s' : Loader) (n : ℕ),
    lines.mapM Line.text? = some ts ∧ IsRead (String.join ts).toList read ∧
    loadRead s n read = .ok s' ∧
    s.listing.instructions.size = i ∧ s'.listing.instructions.size = j ∧ Retains s'.listing code

theorem Placed.le {code : Listing} {i j : ℕ} {lines : List Line} (h : Placed code i lines j) :
    i ≤ j := by
  obtain ⟨_, _, s, s', n, -, -, hload, rfl, rfl, -⟩ := h
  exact (retains_loadRead hload).size_le

theorem Placed.of_nil {code : Listing} {i j : ℕ} (h : Placed code i [] j) : i = j := by
  obtain ⟨ts, read, s, s', n, hts, hread, hload, rfl, rfl, -⟩ := h
  obtain rfl : [] = ts := Option.some.inj hts
  obtain rfl := hread.unique .nil
  obtain rfl : s = s' := Except.ok.inj hload
  rfl

theorem exists_isRead : ∀ {ls : List Line} {ts : List String}, ls.mapM Line.text? = some ts →
    ∃ read, IsRead (String.join ts).toList read
  | [], ts, h => by
    obtain rfl : [] = ts := Option.some.inj h
    exact ⟨[], .nil⟩
  | l :: ls, ts, h => by
    simp only [List.mapM_cons, Option.bind_eq_bind, Option.bind_eq_some_iff, Option.pure_def,
      Option.some.injEq] at h
    obtain ⟨t, ht, rest, hrest, rfl⟩ := h
    obtain ⟨cs, hcs⟩ := newline_of_text? ht
    obtain ⟨read, hread⟩ := exists_isRead hrest
    refine ⟨readLines cs ++ read, ?_⟩
    rw [String.join_cons, String.toList_append, hcs]
    exact (isRead_lines cs).append hread

/-- Lines in a row have places in a row. -/
theorem Placed.append {code : Listing} {i k : ℕ} {lines lines' : List Line}
    (h : Placed code i (lines ++ lines') k) :
    ∃ j, Placed code i lines j ∧ Placed code j lines' k := by
  obtain ⟨ts, read, s, s', n, hts, hread, hload, hi, hk, hretains⟩ := h
  rw [List.mapM_append] at hts
  simp only [Option.bind_eq_bind, Option.bind_eq_some_iff, Option.pure_def,
    Option.some.injEq] at hts
  obtain ⟨us, hus, us', hus', rfl⟩ := hts
  obtain ⟨front, hfront⟩ := exists_isRead hus
  obtain ⟨back, hback⟩ := exists_isRead hus'
  rw [String.join_append, String.toList_append] at hread
  obtain rfl := hread.unique (hfront.append hback)
  obtain ⟨s₁, hload₁, hload₂⟩ := loadRead_append_eq_ok_iff.mp hload
  exact ⟨_,
    ⟨us, front, s, s₁, n, hus, hfront, hload₁, hi, rfl, (retains_loadRead hload₂).trans hretains⟩,
    us', back, s₁, s', _, hus', hback, hload₂, rfl, hk, hretains⟩

theorem exists_before_lines (header : String) (before : List String) (label rest : String)
    (behind : List String) :
    ∃ front, (header ++ String.join (before ++ (label ++ ":\n" ++ rest) :: behind)).toList =
      front ++ ['\n'] ++ (rest.toList ++ (String.join behind).toList) := by
  refine ⟨(header ++ String.join before ++ label ++ ":").toList, ?_⟩
  simp [String.join_append, String.join_cons]

/-- The lines of a function stand behind an end of line in the text of its program. -/
theorem text_around {p : Program} {text : String} {f : Function} (htext : p.text? = some text)
    (hf : f ∈ p.functions) :
    ∃ ts front back, f.lines.mapM Line.text? = some ts ∧
      text.toList = front ++ ['\n'] ++ ((String.join ts).toList ++ back) := by
  simp only [Program.text?, Option.bind_eq_bind, Option.bind_eq_some_iff, Option.pure_def,
    Option.some.injEq] at htext
  obtain ⟨texts, htexts, rfl⟩ := htext
  obtain ⟨fs, fs', hsplit⟩ := List.append_of_mem hf
  rw [hsplit, List.mapM_append, List.mapM_cons] at htexts
  simp only [Function.text?, Option.bind_eq_bind, Option.bind_eq_some_iff, Option.pure_def,
    Option.some.injEq] at htexts
  obtain ⟨before, -, _, ⟨_, ⟨ts, hts, rfl⟩, behind, -, rfl⟩, rfl⟩ := htexts
  obtain ⟨front, hfront⟩ := exists_before_lines _ before _ (String.join ts) behind
  exact ⟨ts, front, _, hts, hfront⟩

/-- **The lines of each function have their place** if the text of the program is accepted. -/
theorem placed_function {p : Program} {text : String} {code : Listing} {f : Function}
    (htext : p.text? = some text) (hparse : Listing.parse text = .ok code) (hf : f ∈ p.functions) :
    ∃ i j, Placed code i f.lines j := by
  obtain ⟨ts, front, back, hts, hchars⟩ := text_around htext hf
  obtain ⟨read, hread⟩ := exists_isRead hts
  rw [parse_eq, hchars, isRead_lines front, hread] at hparse
  cases hload : loadRead {} 1 (readLines front ++ (read ++ readLines back)) with
  | error e =>
    rw [hload] at hparse
    cases hparse
  | ok s =>
    rw [hload] at hparse
    obtain rfl : s.listing = code := Except.ok.inj hparse
    obtain ⟨s₁, -, hload₁⟩ := loadRead_append_eq_ok_iff.mp hload
    obtain ⟨s₂, hload₂, hload₃⟩ := loadRead_append_eq_ok_iff.mp hload₁
    exact ⟨_, _, ts, read, s₁, s₂, _, hts, hread, hload₂, rfl, rfl, retains_loadRead hload₃⟩

/-! ### Lines that can be read in one way only -/

/-- An operand that is read back, or refused because its number is too wide. -/
def Operand.Legible (o : Operand) : Prop := (∃ n, o = .imm n) ∨ o.Readable

theorem Operand.Legible.translate {o : Operand} (h : o.Legible) :
    ∃ text, o.text? = some text ∧ IsWord text.toList ∧
    ∀ o', parseOperand text.toList = .ok o' → o.translate? = some o' := by
  rcases h with ⟨n, rfl⟩ | h
  · have hchars : (Text.decimal n.toInt).toList = Text.decimalChars n.toInt := String.toList_ofList
    refine ⟨Text.decimal n.toInt, rfl, hchars ▸ isWord_decimalChars _, fun o' ho' => ?_⟩
    rw [hchars, parseOperand_number] at ho'
    split at ho'
    · exact congrArg some (Except.ok.inj ho')
    · cases ho'
  · obtain ⟨text, o₁, htext, htranslate, hword, hparse⟩ := parseOperand_text h
    refine ⟨text, htext, hword, fun o' ho' => ?_⟩
    rw [hparse] at ho'
    rw [htranslate, Except.ok.inj ho']

theorem translate_of_legible : ∀ {os : List Operand}, (∀ o ∈ os, o.Legible) →
    ∃ texts, os.mapM Operand.text? = some texts ∧ (∀ t ∈ texts, IsWord t.toList) ∧
      texts.length = os.length ∧
      ∀ os', (texts.map String.toList).mapM parseOperand = .ok os' →
      os.mapM Operand.translate? = some os'
  | [], _ => ⟨[], rfl, by simp, rfl, fun os' h => congrArg some (Except.ok.inj h)⟩
  | o :: os, h => by
    rw [List.forall_mem_cons] at h
    obtain ⟨text, htext, hword, htranslate⟩ := h.1.translate
    obtain ⟨texts, htexts, hwords, hlength, htranslates⟩ := translate_of_legible h.2
    refine ⟨text :: texts, ?_, List.forall_mem_cons.mpr ⟨hword, hwords⟩, ?_, fun os' hos' => ?_⟩
    · simp [List.mapM_cons, htext, htexts]
    · rw [List.length_cons, List.length_cons, hlength]
    · rw [List.map_cons, List.mapM_cons, ok_bind_iff] at hos'
      obtain ⟨o', ho', hos'⟩ := hos'
      rw [ok_bind_iff] at hos'
      obtain ⟨rest, hrest, heq⟩ := hos'
      obtain rfl : o' :: rest = os' := Except.ok.inj heq
      simp [List.mapM_cons, htranslate o' ho', htranslates rest hrest]

/-- A label or an instruction that is read back if its line is accepted. -/
inductive Legible : Line → Prop
  | label {name : String} (h : IsSymbol name) : Legible (.label name)
  | op {m : String} {os : List Operand} (hm : IsWord m.toList) (hdot : m.toList.head? ≠ some '.')
      (ho : ∀ o ∈ os, o.Legible) : Legible (.op m os)

/-- What such a line makes of a loader. -/
inductive Added (s : Loader) : Line → Loader → Prop
  | label {name : String} : Added s (.label name) (labelled s name)
  | op {m : String} {os : List Operand} {ins : Instruction} (htext : s.inText = true)
      (hreads : Reads ins (m, os)) :
      Added s (.op m os) { s with listing.instructions := s.listing.instructions.push ins }

theorem Legible.added {l : Line} (h : Legible l) : ∃ t r, l.text? = some t ∧ IsRead t.toList [r] ∧
    ∀ (s s' : Loader) (n : ℕ), s.addLine n r = .ok s' → Added s l s' := by
  cases h with
  | @label name h =>
    have hchars : (name ++ ":" ++ "\n").toList = name.toList ++ [':'] ++ ['\n'] := by simp
    have hnewline : '\n' ∉ name.toList ++ [':'] := by
      rw [List.mem_append, not_or]
      exact ⟨h.isWord.notMem (by decide), by decide⟩
    refine ⟨name ++ ":" ++ "\n", _, by simp [Line.text?, Line.label], hchars ▸ isRead_line hnewline,
      fun s s' n hadd => ?_⟩
    rw [readable_label h.isWord, Loader.addLine, if_neg (by simp), Text.stripSuffix_append] at hadd
    obtain ⟨rfl, -⟩ := addLabel_of_ok hadd
    rw [String.ofList_toList]
    exact .label
  | @op m os hm hdot ho =>
    obtain ⟨texts, htexts, hwords, hlength, htranslate⟩ := translate_of_legible ho
    obtain ⟨t, ht, hchars⟩ := @toList_opText m os texts htexts hlength
    have hws : ∀ w ∈ texts.map String.toList, IsWord w := by simpa using hwords
    refine ⟨t, _, ht, hchars ▸ isRead_line (newline_notMem_opLine hm hws), fun s s' n hadd => ?_⟩
    obtain ⟨rest, hline, hsplit⟩ := @addLine_opChars s n _ _ hm hdot hws
    rw [readable, trim_opLine hm hws, hline, String.ofList_toList] at hadd
    obtain ⟨htext, os', hparse, rfl⟩ := addInstruction_of_ok hadd
    exact .op htext ⟨rfl, htranslate os' (hsplit ▸ hparse), rfl⟩

theorem Added.size {s s' : Loader} {l : Line} (h : Added s l s') :
    s'.listing.instructions.size = s.listing.instructions.size + opCount [l] := by
  cases h with
  | @label name =>
    unfold labelled
    split <;> rfl
  | op htext hreads => exact Array.size_push _

theorem Added.inText {s s' : Loader} {l : Line} (h : Added s l s') : s'.inText = s.inText := by
  cases h with
  | @label name =>
    unfold labelled
    split <;> rfl
  | op htext hreads => rfl

/-- In code, such a line is found in every listing that retains what it has added. -/
theorem Added.codeAt {s s' : Loader} {l : Line} {code : Listing} (h : Added s l s')
    (htext : s.inText = true) (hretains : Retains s'.listing code) :
    CodeAt code s.listing.instructions.size [l] := by
  cases h with
  | @label name =>
    refine ⟨hretains.codeLabels ?_, trivial⟩
    rw [labelled, if_pos htext]
    exact List.lookup_cons_self
  | @op m os ins htext hreads =>
    exact ⟨⟨ins, hretains.getElem? Array.getElem?_push_size, hreads⟩, trivial⟩

/-- The first of some lines that can be read in one way only, and the others. -/
theorem Legible.loadRead_cons {l : Line} {ls : List Line} {ts : List String}
    {read : List (List Char)} {s s' : Loader} {n : ℕ} (hl : Legible l)
    (hts : (l :: ls).mapM Line.text? = some ts) (hread : IsRead (String.join ts).toList read)
    (hload : loadRead s n read = .ok s') :
    ∃ us read' s₁, ls.mapM Line.text? = some us ∧ IsRead (String.join us).toList read' ∧
      Added s l s₁ ∧
      loadRead s₁ (n + 1) read' = .ok s' := by
  obtain ⟨t, r, ht, hr, hadded⟩ := hl.added
  simp only [List.mapM_cons, ht, Option.bind_eq_bind, Option.bind_some, Option.bind_eq_some_iff,
    Option.pure_def, Option.some.injEq] at hts
  obtain ⟨us, hus, rfl⟩ := hts
  obtain ⟨read', hread'⟩ := exists_isRead hus
  rw [String.join_cons, String.toList_append] at hread
  obtain rfl := hread.unique (hr.append hread')
  obtain ⟨s₁, hline, hrest⟩ := loadRead_cons_eq_ok_iff.mp hload
  exact ⟨us, read', s₁, hus, hread', hadded s s₁ n hline, hrest⟩

/-- Lines that can be read in one way only are found where they have been read, if code stands
there. -/
theorem codeAt_of_loadRead :
    ∀ {ls : List Line} {ts : List String} {read : List (List Char)} {s s' : Loader} {n : ℕ}
    {code : Listing}, (∀ l ∈ ls, Legible l) → s.inText = true → ls.mapM Line.text? = some ts →
    IsRead (String.join ts).toList read → loadRead s n read = .ok s' → Retains s'.listing code →
    CodeAt code s.listing.instructions.size ls ∧
      s'.listing.instructions.size = s.listing.instructions.size + opCount ls
  | [], ts, read, s, s', n, code, _, _, hts, hread, hload, _ => by
    obtain rfl : [] = ts := Option.some.inj hts
    obtain rfl := hread.unique .nil
    obtain rfl : s = s' := Except.ok.inj hload
    exact ⟨trivial, rfl⟩
  | l :: ls, ts, read, s, s', n, code, hls, htext, hts, hread, hload, hretains => by
    rw [List.forall_mem_cons] at hls
    obtain ⟨us, read', s₁, hus, hread', hadded, hrest⟩ := hls.1.loadRead_cons hts hread hload
    obtain ⟨hcode, hsize⟩ :=
      codeAt_of_loadRead hls.2 (hadded.inText.trans htext) hus hread' hrest hretains
    have hall : CodeAt code _ ([l] ++ ls) ↔ _ := codeAt_append ls [l] s.listing.instructions.size
    rw [hadded.size] at hcode hsize
    refine ⟨hall.mpr ⟨hadded.codeAt htext ((retains_loadRead hrest).trans hretains), hcode⟩, ?_⟩
    rw [hsize, Nat.add_assoc, ← opCount_append]
    rfl

/-- **Lines that can be read in one way only are found at their place**, if the first one is an
instruction: an instruction is accepted in code only. -/
theorem Placed.codeAt {code : Listing} {i j : ℕ} {m : String} {os : List Operand} {ls : List Line}
    (h : Placed code i (.op m os :: ls) j) (hls : ∀ l ∈ .op m os :: ls, Legible l) :
    CodeAt code i (.op m os :: ls) ∧ j = i + opCount (.op m os :: ls) := by
  obtain ⟨ts, read, s, s', n, hts, hread, hload, rfl, rfl, hretains⟩ := h
  -- a label may stand among data as well, so it is the first line that tells
  have htext : s.inText = true := by
    obtain ⟨-, -, s₁, -, -, hadded, -⟩ := (hls _ List.mem_cons_self).loadRead_cons hts hread hload
    cases hadded with
    | op htext hreads => exact htext
  exact codeAt_of_loadRead hls htext hts hread hload hretains

end RvBackend.Asm
