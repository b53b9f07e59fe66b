import RvBackend.Proofs.Asm.Operands
import RvBackend.Proofs.Lower.FrameLayout

/-! # Lines are read back

A text of whole lines is read line by line. A line of code adds a label or an instruction to the
listing, or nothing if it holds a comment only.

* `Loads`: what reading makes of a text of whole lines.
* `Extends`: what lines of code add to a listing.
* `loads_lines`: lines of code add their labels and instructions, and nothing else. -/

namespace RvBackend.Asm

open Machine

/-! ### Whole lines -/

/-- Reading goes from `s` at line `n` over the whole lines `cs` to `s'` at line `n'`. -/
def Loads (s : Loader) (n : ℕ) (cs : List Char) (s' : Loader) (n' : ℕ) : Prop :=
  ∀ rest, loadLines s n (Text.splitOn '\n' (cs ++ rest)) = loadLines s' n' (Text.splitOn '\n' rest)

theorem Loads.refl (s : Loader) (n : ℕ) : Loads s n [] s n := fun _ => rfl

theorem Loads.trans {s s' s'' : Loader} {n n' n'' : ℕ} {cs ds : List Char} (h : Loads s n cs s' n')
    (h' : Loads s' n' ds s'' n'') : Loads s n (cs ++ ds) s'' n'' := by
  intro rest
  rw [List.append_assoc, h (ds ++ rest), h' rest]

theorem loads_line {s s' : Loader} {n : ℕ} {line : List Char} (hline : '\n' ∉ line)
    (h : s.addLine n (Text.trim (withoutComment line)) = .ok s') :
    Loads s n (line ++ ['\n']) s' (n + 1) := by
  intro rest
  have hsplit : Text.splitOn '\n' (line ++ ['\n'] ++ rest) = line :: Text.splitOn '\n' rest := by
    rw [List.append_assoc]
    exact Text.splitOn_append rest hline
  rw [hsplit, loadLines, h]

theorem Loads.parse {s : Loader} {n : ℕ} {text : String} (h : Loads {} 1 text.toList s n) :
    Listing.parse text = .ok s.listing := by
  have hall := h []
  rw [List.append_nil] at hall
  unfold Listing.parse
  rw [hall]
  rfl

/-! ### Comments and blanks around a line -/

theorem withoutComment_append {cs : List Char} (ds : List Char) (h : ∀ c ∈ cs, c ≠ '/' ∧ c ≠ '#') :
    withoutComment (cs ++ ds) = cs ++ withoutComment ds := by
  induction cs with
  | nil => rfl
  | cons c cs ih =>
    rw [List.forall_mem_cons] at h
    rw [List.cons_append, withoutComment, ih h.2]
    · rfl
    · exact h.1.2
    · intro _ heq
      exact absurd heq h.1.1

theorem withoutComment_of_plain {cs : List Char} (h : ∀ c ∈ cs, c ≠ '/' ∧ c ≠ '#') :
    withoutComment cs = cs := by
  have := withoutComment_append [] h
  rwa [List.append_nil, withoutComment, List.append_nil] at this

theorem ne_comment_of_isPlain {c : Char} (h : isPlain c = true) : c ≠ '/' ∧ c ≠ '#' :=
  ⟨ne_of_isPlain h (by decide), ne_of_isPlain h (by decide)⟩

theorem ne_newline_of_isPlain {c : Char} (h : isPlain c = true) : c ≠ '\n' :=
  ne_of_isPlain h (by decide)

/-! ### Operands -/

/-- Words with a comma and a blank between them. -/
def commaSeparated (words : List (List Char)) : List Char := [',', ' '].intercalate words

theorem commaSeparated_cons_cons (w w' : List Char) (ws : List (List Char)) :
    commaSeparated (w :: w' :: ws) = w ++ ',' :: ' ' :: commaSeparated (w' :: ws) := by
  simp [commaSeparated, List.intercalate]

theorem IsWord.notMem {w : List Char} (h : IsWord w) {c : Char} (hc : isPlain c = false) : c ∉ w :=
  fun hmem => ne_of_isPlain (h.2 c hmem) hc rfl

theorem IsWord.trim {w front : List Char} (h : IsWord w)
    (hfront : ∀ c ∈ front, Text.isBlank c = true) :
    Text.trim (front ++ w) = w :=
  Text.trim_append hfront (fun c hc => isBlank_of_isPlain (h.2 c (List.mem_of_mem_head? hc)))
    (fun c hc => isBlank_of_isPlain (h.2 c (List.mem_of_mem_getLast? hc)))

theorem splitOn_commaSeparated : ∀ {ws : List (List Char)} {w front : List Char}, IsWord w →
    (∀ w ∈ ws, IsWord w) → (∀ c ∈ front, Text.isBlank c = true) → ',' ∉ front →
    (Text.splitOn ',' (front ++ commaSeparated (w :: ws))).map Text.trim = w :: ws
  | [], w, front, hw, _, hblank, hcomma => by
    have hall : ',' ∉ front ++ w := by
      rw [List.mem_append, not_or]
      exact ⟨hcomma, hw.notMem (by decide)⟩
    have hone : commaSeparated [w] = w := by simp [commaSeparated, List.intercalate]
    rw [hone, Text.splitOn_of_notMem hall, List.map_singleton, hw.trim hblank]
  | w' :: ws, w, front, hw, hws, hblank, hcomma => by
    rw [List.forall_mem_cons] at hws
    have hall : ',' ∉ front ++ w := by
      rw [List.mem_append, not_or]
      exact ⟨hcomma, hw.notMem (by decide)⟩
    have hrest := @splitOn_commaSeparated ws w' [' '] hws.1 hws.2 (by decide) (by decide)
    rw [commaSeparated_cons_cons, ← List.append_assoc, Text.splitOn_append _ hall, List.map_cons,
      hw.trim hblank]
    exact congrArg (w :: ·) hrest

/-- The first and the last character of separated words are plain. -/
theorem head_commaSeparated {w : List Char} {ws : List (List Char)} (hw : IsWord w) :
    ∀ c ∈ (commaSeparated (w :: ws)).head?, isPlain c = true := by
  intro c hc
  have hhead : (commaSeparated (w :: ws)).head? = w.head? := by
    cases ws with
    | nil => simp [commaSeparated, List.intercalate]
    | cons w' ws => rw [commaSeparated_cons_cons, List.head?_append_of_ne_nil _ hw.1]
  rw [hhead] at hc
  exact hw.2 c (List.mem_of_mem_head? hc)

theorem getLast_commaSeparated : ∀ {ws : List (List Char)} {w : List Char}, IsWord w →
    (∀ w ∈ ws, IsWord w) → ∃ c, (commaSeparated (w :: ws)).getLast? = some c ∧ isPlain c = true
  | [], w, hw, _ => by
    have hone : commaSeparated [w] = w := by simp [commaSeparated, List.intercalate]
    refine ⟨w.getLast hw.1, ?_, hw.2 _ (List.getLast_mem hw.1)⟩
    rw [hone, List.getLast?_eq_getLast_of_ne_nil hw.1]
  | w' :: ws, w, hw, hws => by
    rw [List.forall_mem_cons] at hws
    obtain ⟨c, hc, hplain⟩ := getLast_commaSeparated hws.1 hws.2
    refine ⟨c, ?_, hplain⟩
    have hne : commaSeparated (w' :: ws) ≠ [] := by
      intro hnil
      rw [hnil] at hc
      cases hc
    rw [commaSeparated_cons_cons, List.getLast?_append, List.getLast?_cons_cons, List.getLast?_cons]
    simp [hc]

theorem mem_commaSeparated : ∀ {ws : List (List Char)} {c : Char}, c ∈ commaSeparated ws →
    c = ',' ∨ c = ' ' ∨ ∃ w ∈ ws, c ∈ w
  | [], c, h => by simp [commaSeparated, List.intercalate] at h
  | [w], c, h => by
    simp only [commaSeparated, List.intercalate, List.intersperse_singleton, List.flatten_cons,
      List.flatten_nil, List.append_nil] at h
    exact .inr (.inr ⟨w, List.mem_cons_self, h⟩)
  | w :: w' :: ws, c, h => by
    rw [commaSeparated_cons_cons, List.mem_append, List.mem_cons, List.mem_cons] at h
    rcases h with h | rfl | rfl | h
    · exact .inr (.inr ⟨w, List.mem_cons_self, h⟩)
    · exact .inl rfl
    · exact .inr (.inl rfl)
    · rcases mem_commaSeparated h with h | h | ⟨v, hv, h⟩
      · exact .inl h
      · exact .inr (.inl h)
      · exact .inr (.inr ⟨v, List.mem_cons_of_mem _ hv, h⟩)

/-- A number of 12 bits is short as a word. -/
theorem isShort_ofInt {n : ℤ} (h : -2048 ≤ n ∧ n ≤ 2047) : isShort (Int32.ofInt n) = true := by
  have hval : (Int32.ofInt n).toInt = n := Int32.toInt_ofInt_of_le (by omega) (by omega)
  rw [isShort, Bool.and_eq_true, decide_eq_true_eq, decide_eq_true_eq, Int32.le_iff_toInt_le,
    Int32.le_iff_toInt_le, hval]
  exact h

theorem checkWidth_of_encodable {m : String} {o : Operand} {o' : Machine.Operand}
    (h : o.Encodable m) (ho : o.translate? = some o') : checkWidth m o' = .ok () := by
  cases o with
  | reg name =>
    obtain ⟨r, -, rfl⟩ := Option.map_eq_some_iff.mp ho
    rfl
  | mem offset base =>
    obtain ⟨r, -, rfl⟩ := Option.map_eq_some_iff.mp ho
    exact if_pos (isShort_ofInt h)
  | label name =>
    cases ho
    rfl
  | imm n =>
    cases ho
    by_cases hm : m = "li"
    · subst hm
      rfl
    · rw [Operand.Encodable, if_neg hm] at h
      rw [checkWidth, isShort_ofInt h, Bool.not_true, Bool.and_false]
      rfl

/-- Printed operands are words that are read back and have room in their instruction. -/
theorem parseOperands_text {m : String} : ∀ {os : List Operand},
    (∀ o ∈ os, o.Readable ∧ o.Encodable m) →
    ∃ texts os', os.mapM Operand.text? = some texts ∧ os.mapM Operand.translate? = some os' ∧
      (∀ t ∈ texts, IsWord t.toList) ∧ (texts.map String.toList).mapM parseOperand = .ok os' ∧
      os'.forM (checkWidth m) = .ok () ∧ texts.length = os.length
  | [], _ => ⟨[], [], rfl, rfl, by simp, rfl, rfl, rfl⟩
  | o :: os, h => by
    rw [List.forall_mem_cons] at h
    obtain ⟨⟨hread, hencode⟩, hrest⟩ := h
    obtain ⟨text, o', htext, htranslate, hword, hparse⟩ := parseOperand_text hread
    obtain ⟨texts, os', htexts, htranslates, hwords, hparses, hwidths, hlength⟩ :=
      parseOperands_text hrest
    refine ⟨text :: texts, o' :: os', ?_, ?_, List.forall_mem_cons.mpr ⟨hword, hwords⟩, ?_, ?_, ?_⟩
    · simp [List.mapM_cons, htext, htexts]
    · simp [List.mapM_cons, htranslate, htranslates]
    · rw [List.map_cons, List.mapM_cons, hparse, hparses]
      rfl
    · show (checkWidth m o' >>= fun _ => os'.forM (checkWidth m)) = .ok ()
      rw [checkWidth_of_encodable hencode htranslate]
      exact hwidths
    · rw [List.length_cons, List.length_cons, hlength]

/-! ### Lines of code -/

/-- An instruction of the machine stands for a mnemonic with operands. -/
structure Reads (i : Instruction) (op : String × List Operand) : Prop where
  mnemonic : i.mnemonic = op.1
  operands : op.2.mapM Operand.translate? = some i.operands
  operation : i.operation = Operation.decode i.mnemonic i.operands

/-- The instructions of lines. -/
def opsOf (lines : List Line) : List (String × List Operand) :=
  lines.filterMap fun l =>
    match l.content with
    | .op mnemonic operands => some (mnemonic, operands)
    | _ => none

/-- The labels of lines. -/
def labelsOf (lines : List Line) : List String :=
  lines.filterMap fun l =>
    match l.content with
    | .label name => some name
    | _ => none

/-- The labels of lines, each with the number of the instruction behind it, if the first instruction
of the lines has the number `index`. -/
def placesOf (index : ℕ) : List Line → List (String × ℕ)
  | [] => []
  | l :: ls =>
    match l.content with
    | .blank => placesOf index ls
    | .label name => (name, index) :: placesOf index ls
    | .op _ _ => placesOf (index + 1) ls

theorem placesOf_append (ls' : List Line) : ∀ (ls : List Line) (index : ℕ),
    placesOf index (ls ++ ls') = placesOf index ls ++ placesOf (index + (opsOf ls).length) ls'
  | [], _ => rfl
  | ⟨.blank, _⟩ :: ls, index => placesOf_append ls' ls index
  | ⟨.label _, _⟩ :: ls, index => congrArg (_ :: ·) (placesOf_append ls' ls index)
  | ⟨.op _ _, _⟩ :: ls, index => by
    have hstep := placesOf_append ls' ls (index + 1)
    rw [Nat.add_assoc, Nat.add_comm 1] at hstep
    exact hstep

theorem opsOf_append (ls ls' : List Line) : opsOf (ls ++ ls') = opsOf ls ++ opsOf ls' :=
  List.filterMap_append

theorem labelsOf_append (ls ls' : List Line) : labelsOf (ls ++ ls') = labelsOf ls ++ labelsOf ls' :=
  List.filterMap_append

/-- What lines of code add to a listing: their labels and their instructions, and nothing else. -/
structure Extends (lines : List Line) (s s' : Loader) : Prop where
  inText : s'.inText = s.inText
  next : s'.next = s.next
  dataLabels : s'.listing.dataLabels = s.listing.dataLabels
  memory : s'.listing.memory = s.listing.memory
  codeLabels : s'.listing.codeLabels =
    (placesOf s.listing.instructions.size lines).reverse ++ s.listing.codeLabels
  instructions : ∃ is, s'.listing.instructions.toList = s.listing.instructions.toList ++ is ∧
    List.Forall₂ Reads is (opsOf lines)

theorem Extends.size {lines : List Line} {s s' : Loader} (h : Extends lines s s') :
    s'.listing.instructions.size = s.listing.instructions.size + (opsOf lines).length := by
  obtain ⟨is, his, hreads⟩ := h.instructions
  rw [← Array.length_toList, his, List.length_append, hreads.length_eq, Array.length_toList]

theorem Extends.refl (s : Loader) : Extends [] s s :=
  ⟨rfl, rfl, rfl, rfl, rfl, [], (List.append_nil _).symm, .nil⟩

theorem Extends.trans {ls ls' : List Line} {s s' s'' : Loader} (h : Extends ls s s')
    (h' : Extends ls' s' s'') : Extends (ls ++ ls') s s'' := by
  obtain ⟨is, his, hreads⟩ := h.instructions
  obtain ⟨is', his', hreads'⟩ := h'.instructions
  refine ⟨h'.inText.trans h.inText, h'.next.trans h.next, h'.dataLabels.trans h.dataLabels,
    h'.memory.trans h.memory, ?_, is ++ is', ?_, ?_⟩
  · rw [h'.codeLabels, h.codeLabels, h.size, placesOf_append, List.reverse_append,
      List.append_assoc]
  · rw [his', his, List.append_assoc]
  · rw [opsOf_append]
    exact List.rel_append hreads hreads'

/-- No label of the lines is in the listing yet, and none comes twice. -/
structure Fresh (lines : List Line) (s : Loader) : Prop where
  nodup : (labelsOf lines).Nodup
  code : ∀ name ∈ labelsOf lines, s.listing.codeLabels.lookup name = none
  data : ∀ name ∈ labelsOf lines, s.listing.dataLabels.lookup name = none

theorem Fresh.left {ls ls' : List Line} {s : Loader} (h : Fresh (ls ++ ls') s) : Fresh ls s := by
  have hnodup := h.nodup
  rw [labelsOf_append] at hnodup
  refine ⟨hnodup.of_append_left, fun name hname => h.code name ?_, fun name hname => h.data name ?_⟩
  · rw [labelsOf_append]; exact List.mem_append_left _ hname
  · rw [labelsOf_append]; exact List.mem_append_left _ hname

theorem map_fst_placesOf :
    ∀ (ls : List Line) (index : ℕ), (placesOf index ls).map Prod.fst = labelsOf ls
  | [], _ => rfl
  | ⟨.blank, _⟩ :: ls, index => map_fst_placesOf ls index
  | ⟨.label _, _⟩ :: ls, index => congrArg (_ :: ·) (map_fst_placesOf ls index)
  | ⟨.op _ _, _⟩ :: ls, index => map_fst_placesOf ls (index + 1)

theorem Fresh.right {ls ls' : List Line} {s s' : Loader} (h : Fresh (ls ++ ls') s)
    (hext : Extends ls s s') : Fresh ls' s' := by
  have hnodup := h.nodup
  rw [labelsOf_append] at hnodup
  have hmem : ∀ name ∈ labelsOf ls', name ∈ labelsOf (ls ++ ls') := fun name hname => by
    rw [labelsOf_append]
    exact List.mem_append_right _ hname
  refine ⟨hnodup.of_append_right, fun name hname => ?_, fun name hname => ?_⟩
  · rw [hext.codeLabels]
    refine lookup_append_none ?_ (h.code name (hmem name hname))
    rw [List.map_reverse, List.mem_reverse, map_fst_placesOf]
    exact fun hmem' => List.disjoint_of_nodup_append hnodup hmem' hname
  · rw [hext.dataLabels]
    exact h.data name (hmem name hname)

/-! ### Reading one line -/

/-- A line that is read back. -/
inductive Loadable : Line → Prop
  | remark {text : String} (h : '\n' ∉ text.toList) : Loadable (.remark text)
  | label {name : String} (h : IsSymbol name) : Loadable (.label name)
  | op {mnemonic : String} {operands : List Operand} (hm : IsWord mnemonic.toList)
      (hdot : mnemonic.toList.head? ≠ some '.')
      (ho : ∀ o ∈ operands, o.Readable ∧ o.Encodable mnemonic) : Loadable (.op mnemonic operands)

theorem loads_remark {text : String} (h : '\n' ∉ text.toList) (s : Loader) (n : ℕ) :
    ∃ t, (Line.remark text).text? = some t ∧ Loads s n t.toList s (n + 1) := by
  by_cases hempty : text = ""
  · subst hempty
    exact ⟨"\n", rfl, @loads_line s s n [] List.not_mem_nil rfl⟩
  · refine ⟨"// " ++ text ++ "\n", by simp [Line.text?, Line.remark, hempty], ?_⟩
    have hchars : ("// " ++ text ++ "\n").toList = ('/' :: '/' :: ' ' :: text.toList) ++
      ['\n'] := by simp
    rw [hchars]
    refine loads_line ?_ rfl
    simp only [List.mem_cons, not_or]
    exact ⟨by decide, by decide, by decide, h⟩

/-- The loader behind a label. -/
def labelled (s : Loader) (name : String) : Loader :=
  if s.inText then
    { s with listing.codeLabels := (name, s.listing.instructions.size) :: s.listing.codeLabels }
  else { s with listing.dataLabels := (name, s.next) :: s.listing.dataLabels }

theorem addLabel_eq_ok {name : String} (h : IsSymbol name) {s : Loader}
    (hcode : s.listing.codeLabels.lookup name = none)
    (hdata : s.listing.dataLabels.lookup name = none) (line : List Char) :
    s.addLabel line name.toList = .ok (labelled s name) := by
  have hblank : name.toList.any (fun c => c == ' ' || c == '\t') = false := by
    rw [List.any_eq_false]
    intro c hc hc'
    rw [Bool.or_eq_true, beq_iff_eq, beq_iff_eq] at hc'
    rcases hc' with rfl | rfl
    · exact absurd (h.plain _ hc) (by decide)
    · exact absurd (h.plain _ hc) (by decide)
  have hempty : name.toList.isEmpty = false := by simpa using h.isWord.1
  simp only [Loader.addLabel, hempty, hblank, String.ofList_toList, hcode, hdata,
    Option.isSome_none, Bool.or_self, Bool.false_eq_true, if_false]
  unfold labelled
  split <;> rfl

theorem loads_labelLine {name : String} (h : IsSymbol name) {s : Loader}
    (hcode : s.listing.codeLabels.lookup name = none)
    (hdata : s.listing.dataLabels.lookup name = none) (n : ℕ) :
    Loads s n (name.toList ++ [':'] ++ ['\n']) (labelled s name) (n + 1) := by
  have hplain : ∀ c ∈ name.toList ++ [':'], c ≠ '/' ∧ c ≠ '#' := by
    refine List.forall_mem_append.mpr ⟨fun c hc => ne_comment_of_isPlain (h.plain c hc), by decide⟩
  have htrim : Text.trim (name.toList ++ [':']) = name.toList ++ [':'] := by
    refine Text.trim_of_ends ?_ ?_
    · intro c hc
      rw [List.head?_append_of_ne_nil _ h.isWord.1] at hc
      exact isBlank_of_isPlain (h.plain c (List.mem_of_mem_head? hc))
    · intro c hc
      rw [List.getLast?_concat, Option.mem_some_iff] at hc
      exact hc ▸ by decide
  refine loads_line ?_ ?_
  · rw [List.mem_append, not_or]
    exact ⟨h.isWord.notMem (by decide), by decide⟩
  · rw [withoutComment_of_plain hplain, htrim]
    unfold Loader.addLine
    rw [if_neg (by simp), Text.stripSuffix_append]
    exact addLabel_eq_ok h hcode hdata _

theorem loads_label {name : String} (h : IsSymbol name) {s : Loader} (htext : s.inText = true)
    (hfresh : Fresh [.label name] s) (n : ℕ) :
    ∃ t s', (Line.label name).text? = some t ∧ Loads s n t.toList s' (n + 1) ∧
      Extends [.label name] s s' := by
  have hcode := hfresh.code name List.mem_cons_self
  have hdata := hfresh.data name List.mem_cons_self
  refine ⟨name ++ ":" ++ "\n", labelled s name, by simp [Line.text?, Line.label], ?_, ?_⟩
  · have hchars : (name ++ ":" ++ "\n").toList = name.toList ++ [':'] ++ ['\n'] := by simp
    rw [hchars]
    exact loads_labelLine h hcode hdata n
  · rw [labelled, if_pos htext]
    exact ⟨rfl, rfl, rfl, rfl, rfl, [], (List.append_nil _).symm, .nil⟩

theorem addInstruction_eq_ok {s : Loader} {n : ℕ} {m : String} {rest : List Char}
    {os : List Machine.Operand} (htext : s.inText = true)
    (hparse : (splitOperands rest).mapM parseOperand = .ok os)
    (hwidth : os.forM (checkWidth m) = .ok ()) :
    s.addInstruction n m rest = .ok { s with
      listing.instructions :=
      s.listing.instructions.push { line := n, mnemonic := m, operands := os } } := by
  unfold Loader.addInstruction
  rw [htext, if_pos rfl, hparse]
  show (os.forM (checkWidth m) >>= fun _ => _) = _
  rw [hwidth]
  rfl

theorem addLine_bare {s : Loader} {n : ℕ} {m : List Char} (hm : IsWord m)
    (hdot : m.head? ≠ some '.') :
    s.addLine n m = s.addInstruction n (String.ofList m) [] := by
  have hlast : m.getLast? ≠ some ':' := fun h =>
    absurd (hm.2 _ (List.mem_of_getLast? h)) (by decide)
  unfold Loader.addLine
  rw [if_neg (by simpa using hm.1), Text.stripSuffix_of_getLast hlast,
    Text.cut_of_notMem (hm.notMem (by decide))]
  simp only [Option.getD_none]
  rw [if_neg (by simpa using hdot)]
  rfl

theorem addLine_operands {s : Loader} {n : ℕ} {m w : List Char} {ws : List (List Char)}
    (hm : IsWord m) (hdot : m.head? ≠ some '.') (hw : IsWord w) (hws : ∀ w ∈ ws, IsWord w) :
    s.addLine n (m ++ ' ' :: commaSeparated (w :: ws)) =
      s.addInstruction n (String.ofList m) (commaSeparated (w :: ws)) := by
  obtain ⟨c, hc, hplain⟩ := getLast_commaSeparated hw hws
  have hlast : (m ++ ' ' :: commaSeparated (w :: ws)).getLast? ≠ some ':' := by
    rw [List.getLast?_append, List.getLast?_cons, hc]
    rintro heq
    cases heq
    exact absurd hplain (by decide)
  have htrim : Text.trim (commaSeparated (w :: ws)) = commaSeparated (w :: ws) := by
    refine Text.trim_of_ends (fun d hd => isBlank_of_isPlain (head_commaSeparated hw d hd)) ?_
    intro d hd
    rw [hc, Option.mem_some_iff] at hd
    exact isBlank_of_isPlain (hd ▸ hplain)
  unfold Loader.addLine
  rw [if_neg (by simp), Text.stripSuffix_of_getLast hlast,
    Text.cut_append _ (hm.notMem (by decide))]
  simp only [Option.getD_some, htrim]
  rw [if_neg (by simpa using hdot)]

/-- The text of an instruction in its line. -/
def opChars (m : List Char) (ws : List (List Char)) : List Char :=
  m ++ if ws = [] then [] else ' ' :: commaSeparated ws

theorem addLine_opChars {s : Loader} {n : ℕ} {m : List Char} {ws : List (List Char)} (hm : IsWord m)
    (hdot : m.head? ≠ some '.') (hws : ∀ w ∈ ws, IsWord w) :
    ∃ rest, s.addLine n (opChars m ws) = s.addInstruction n (String.ofList m) rest ∧
      splitOperands rest = ws := by
  cases ws with
  | nil => exact ⟨[], by rw [opChars, if_pos rfl, List.append_nil]; exact addLine_bare hm hdot, rfl⟩
  | cons w ws =>
    rw [List.forall_mem_cons] at hws
    refine ⟨commaSeparated (w :: ws), ?_, ?_⟩
    · rw [opChars, if_neg (List.cons_ne_nil _ _)]
      exact addLine_operands hm hdot hws.1 hws.2
    · have hsplit := @splitOn_commaSeparated ws w [] hws.1 hws.2 (by simp) (by simp)
      have hne : (Text.trim (commaSeparated (w :: ws))).isEmpty = false := by
        obtain ⟨c, hc, hplain⟩ := getLast_commaSeparated hws.1 hws.2
        rw [Text.trim_of_ends (fun d hd => isBlank_of_isPlain (head_commaSeparated hws.1 d hd))]
        · cases hnil : commaSeparated (w :: ws) with
          | nil => rw [hnil] at hc; cases hc
          | cons _ _ => rfl
        · intro d hd
          rw [hc, Option.mem_some_iff] at hd
          exact isBlank_of_isPlain (hd ▸ hplain)
      rw [splitOperands, hne, if_neg Bool.false_ne_true]
      exact hsplit

theorem mem_opChars {m : List Char} {ws : List (List Char)} (hm : IsWord m)
    (hws : ∀ w ∈ ws, IsWord w) {c : Char} (h : c ∈ opChars m ws) :
    c = ',' ∨ c = ' ' ∨ isPlain c = true := by
  rw [opChars, List.mem_append] at h
  rcases h with h | h
  · exact .inr (.inr (hm.2 c h))
  · split at h
    · cases h
    · rw [List.mem_cons] at h
      rcases h with rfl | h
      · exact .inr (.inl rfl)
      · rcases mem_commaSeparated h with h | h | ⟨w, hw, h⟩
        · exact .inl h
        · exact .inr (.inl h)
        · exact .inr (.inr ((hws w hw).2 c h))

theorem trim_opChars {m : List Char} {ws : List (List Char)} (hm : IsWord m)
    (hws : ∀ w ∈ ws, IsWord w) :
    Text.trim ([' ', ' ', ' ', ' '] ++ opChars m ws) = opChars m ws := by
  refine Text.trim_append (by decide) ?_ ?_
  · intro c hc
    rw [opChars, List.head?_append_of_ne_nil _ hm.1] at hc
    exact isBlank_of_isPlain (hm.2 c (List.mem_of_mem_head? hc))
  · intro c hc
    cases ws with
    | nil =>
      rw [opChars, if_pos rfl, List.append_nil] at hc
      exact isBlank_of_isPlain (hm.2 c (List.mem_of_mem_getLast? hc))
    | cons w ws =>
      rw [List.forall_mem_cons] at hws
      obtain ⟨d, hd, hplain⟩ := getLast_commaSeparated hws.1 hws.2
      rw [opChars, if_neg (List.cons_ne_nil _ _), List.getLast?_append, List.getLast?_cons,
        hd] at hc
      cases hc
      exact isBlank_of_isPlain hplain

theorem mem_opLine {m : List Char} {ws : List (List Char)} (hm : IsWord m)
    (hws : ∀ w ∈ ws, IsWord w) :
    ∀ c ∈ [' ', ' ', ' ', ' '] ++ opChars m ws, c = ',' ∨ c = ' ' ∨ isPlain c = true :=
  List.forall_mem_append.mpr ⟨by decide, fun _ hc => mem_opChars hm hws hc⟩

theorem newline_notMem_opLine {m : List Char} {ws : List (List Char)} (hm : IsWord m)
    (hws : ∀ w ∈ ws, IsWord w) : '\n' ∉ [' ', ' ', ' ', ' '] ++ opChars m ws := by
  intro hnewline
  rcases mem_opLine hm hws _ hnewline with h | h | h
  · exact absurd h (by decide)
  · exact absurd h (by decide)
  · exact absurd h (by decide)

theorem trim_opLine {m : List Char} {ws : List (List Char)} (hm : IsWord m)
    (hws : ∀ w ∈ ws, IsWord w) :
    Text.trim (withoutComment ([' ', ' ', ' ', ' '] ++ opChars m ws)) = opChars m ws := by
  rw [withoutComment_of_plain, trim_opChars hm hws]
  intro c hc
  rcases mem_opLine hm hws c hc with rfl | rfl | h
  · decide
  · decide
  · exact ne_comment_of_isPlain h

theorem toList_opText {m : String} {os : List Operand} {texts : List String}
    (h : os.mapM Operand.text? = some texts) (hlength : texts.length = os.length) :
    ∃ t, (Line.op m os).text? = some t ∧
      t.toList = [' ', ' ', ' ', ' '] ++ opChars m.toList (texts.map String.toList) ++ ['\n'] := by
  cases os with
  | nil =>
    obtain rfl : texts = [] := List.eq_nil_of_length_eq_zero hlength
    exact ⟨_, rfl, by simp [opChars, Line.op]⟩
  | cons o os =>
    obtain ⟨t, ts, rfl⟩ : ∃ t ts, texts = t :: ts :=
      List.exists_cons_of_ne_nil (by rintro rfl; cases hlength)
    refine ⟨"    " ++ m ++ (" " ++ ", ".intercalate (t :: ts)) ++ "" ++ "\n", ?_, ?_⟩
    · simp only [Line.text?, Line.op, Line.operandsText?, h]
      rfl
    · simp [opChars, commaSeparated, String.toList_intercalate]

theorem loads_op {m : String} {os : List Operand} (hm : IsWord m.toList)
    (hdot : m.toList.head? ≠ some '.') (ho : ∀ o ∈ os, o.Readable ∧ o.Encodable m) {s : Loader}
    (htext : s.inText = true) (n : ℕ) :
    ∃ t s', (Line.op m os).text? = some t ∧ Loads s n t.toList s' (n + 1) ∧
      Extends [.op m os] s s' := by
  obtain ⟨texts, os', htexts, htranslate, hwords, hparse, hwidth, hlength⟩ := parseOperands_text ho
  obtain ⟨t, ht, hchars⟩ := toList_opText htexts hlength
  have hws : ∀ w ∈ texts.map String.toList, IsWord w := by simpa using hwords
  obtain ⟨rest, hline, hsplit⟩ := @addLine_opChars s n _ _ hm hdot hws
  refine ⟨t, { s with
    listing.instructions :=
    s.listing.instructions.push { line := n, mnemonic := m, operands := os' } }, ht, ?_, ?_⟩
  · rw [hchars]
    refine loads_line (newline_notMem_opLine hm hws) ?_
    rw [trim_opLine hm hws, hline, String.ofList_toList]
    exact addInstruction_eq_ok htext (hsplit ▸ hparse) hwidth
  · refine ⟨rfl, rfl, rfl, rfl, rfl, [{ line := n, mnemonic := m, operands := os' }], ?_, ?_⟩
    · exact Array.toList_push
    · exact .cons ⟨rfl, htranslate, rfl⟩ .nil

/-- **One line is read back.** -/
theorem Loadable.loads {l : Line} (h : Loadable l) {s : Loader} (htext : s.inText = true)
    (hfresh : Fresh [l] s) (n : ℕ) :
    ∃ t s', l.text? = some t ∧ Loads s n t.toList s' (n + 1) ∧ Extends [l] s s' := by
  cases h with
  | remark h =>
    obtain ⟨t, ht, hloads⟩ := loads_remark h s n
    exact ⟨t, s, ht, hloads, rfl, rfl, rfl, rfl, rfl, [], (List.append_nil _).symm, .nil⟩
  | label h => exact loads_label h htext hfresh n
  | op hm hdot ho => exact loads_op hm hdot ho htext n

/-- **Lines of code are read back**, one after the other. -/
theorem loads_lines : ∀ {ls : List Line}, (∀ l ∈ ls, Loadable l) → ∀ {s : Loader}, s.inText = true →
    Fresh ls s → ∀ n : ℕ, ∃ ts s' n', ls.mapM Line.text? = some ts ∧
      Loads s n (String.join ts).toList s' n' ∧ Extends ls s s'
  | [], _, s, _, _, n => ⟨[], s, n, rfl, Loads.refl s n, Extends.refl s⟩
  | l :: ls, h, s, htext, hfresh, n => by
    rw [List.forall_mem_cons] at h
    have hparts : Fresh ([l] ++ ls) s := hfresh
    obtain ⟨t, s', ht, hloads, hext⟩ := h.1.loads htext hparts.left n
    obtain ⟨ts, s'', n', hts, hloads', hext'⟩ :=
      loads_lines h.2 (hext.inText.trans htext) (hparts.right hext) (n + 1)
    refine ⟨t :: ts, s'', n', ?_, ?_, hext.trans hext'⟩
    · simp [List.mapM_cons, ht, hts]
    · rw [String.join_cons, String.toList_append]
      exact hloads.trans hloads'

end RvBackend.Asm
