import RvBackend.Proofs.Asm.Listing

/-! # What is read of a text

The machine cuts a text into lines, drops the comment of each line and the blanks around it, and
looks only at what is left. So a text is as good as the list of these rests: `readLines`.

* `parse_eq`: a listing depends on nothing but these rests.
* `IsRead`: the rests of a text of whole lines; they are put together as the text is.
* `readLines_comment`: a comment behind a text changes nothing.
* `readable_directive`: what is left of a directive or an instruction, whatever stands behind its
  first word. -/

namespace RvBackend.Asm

open Machine

/-! ### Lines as they are read -/

/-- What is read of a line. -/
def readable (line : List Char) : List Char := Text.trim (withoutComment line)

/-- What is read of the lines of a text. -/
def readLines (cs : List Char) : List (List Char) := (Text.splitOn '\n' cs).map readable

/-- The loader behind lines of which only what is read is left, from a number on. -/
def loadRead (s : Loader) (n : ℕ) : List (List Char) → Except ParseError Loader
  | [] => .ok s
  | line :: lines =>
    match s.addLine n line with
    | .error fault => .error ⟨n, fault⟩
    | .ok s => loadRead s (n + 1) lines

theorem loadLines_eq : ∀ (lines : List (List Char)) (s : Loader) (n : ℕ),
    loadLines s n lines = loadRead s n (lines.map readable)
  | [], _, _ => rfl
  | line :: lines, s, n => by
    rw [loadLines, List.map_cons, loadRead]
    show (match s.addLine n (readable line) with | .error fault => _ | .ok s => _) = _
    cases s.addLine n (readable line) with
    | error fault => rfl
    | ok s' => exact loadLines_eq lines s' (n + 1)

/-- A listing depends on nothing but what is read of the lines. -/
theorem parse_eq (text : String) :
    Listing.parse text = Loader.listing <$> loadRead {} 1 (readLines text.toList) := by
  rw [Listing.parse, loadLines_eq, readLines]

theorem readLines_append (cs ds : List Char) :
    readLines (cs ++ '\n' :: ds) = readLines cs ++ readLines ds := by
  rw [readLines, Text.splitOn_append_sep, List.map_append]
  rfl

theorem readLines_of_notMem {cs : List Char} (h : '\n' ∉ cs) : readLines cs = [readable cs] := by
  rw [readLines, Text.splitOn_of_notMem h, List.map_singleton]

/-- What is read of the whole lines `cs`, whatever follows. -/
def IsRead (cs : List Char) (lines : List (List Char)) : Prop :=
  ∀ rest, readLines (cs ++ rest) = lines ++ readLines rest

theorem IsRead.nil : IsRead [] [] := fun _ => rfl

theorem IsRead.append {cs ds : List Char} {lines lines' : List (List Char)} (h : IsRead cs lines)
    (h' : IsRead ds lines') : IsRead (cs ++ ds) (lines ++ lines') := by
  intro rest
  rw [List.append_assoc, h, h', List.append_assoc]

theorem isRead_lines (cs : List Char) : IsRead (cs ++ ['\n']) (readLines cs) := by
  intro rest
  rw [List.append_assoc, List.singleton_append, readLines_append]

theorem isRead_line {cs : List Char} (h : '\n' ∉ cs) : IsRead (cs ++ ['\n']) [readable cs] := by
  rw [← readLines_of_notMem h]
  exact isRead_lines cs

theorem IsRead.readLines {cs : List Char} {lines : List (List Char)} (h : IsRead cs lines) :
    readLines cs = lines ++ [[]] := by
  have hall := h []
  rw [List.append_nil] at hall
  exact hall

/-! ### Comments -/

/-- What is left of a line does not change with a comment behind it, but for blanks. -/
theorem withoutComment_comment (c : List Char) : ∀ cs : List Char,
    ∃ blanks, (∀ b ∈ blanks, Text.isBlank b = true) ∧
      withoutComment (cs ++ ' ' :: ' ' :: '/' :: '/' :: c) = withoutComment cs ++ blanks := by
  intro cs
  fun_induction withoutComment cs with
  | case1 => exact ⟨[' ', ' '], by decide, rfl⟩
  | case2 => exact ⟨[], by simp, rfl⟩
  | case3 => exact ⟨[], by simp, rfl⟩
  | case4 d cs hhash hslash ih =>
    obtain ⟨blanks, hblanks, heq⟩ := ih
    refine ⟨blanks, hblanks, ?_⟩
    rw [List.cons_append, withoutComment, heq, List.cons_append]
    · exact hhash
    · rintro rest rfl hcs
      -- the second slash would stand in the line itself
      cases cs with
      | nil => cases hcs
      | cons d' cs =>
        obtain ⟨rfl, -⟩ := List.cons.inj hcs
        exact hslash cs rfl rfl

theorem readable_comment (cs c : List Char) :
    readable (cs ++ ' ' :: ' ' :: '/' :: '/' :: c) = readable cs := by
  obtain ⟨blanks, hblanks, heq⟩ := withoutComment_comment c cs
  rw [readable, heq, Text.trim_append_blanks _ hblanks]
  rfl

/-- A comment behind a text changes nothing in what is read of it. -/
theorem readLines_comment {c : List Char} (hc : '\n' ∉ c) (cs : List Char) :
    readLines (cs ++ ' ' :: ' ' :: '/' :: '/' :: c) = readLines cs := by
  have htail : '\n' ∉ ' ' :: ' ' :: '/' :: '/' :: c := by
    simp only [List.mem_cons, not_or]
    exact ⟨by decide, by decide, by decide, by decide, hc⟩
  by_cases hcs : '\n' ∈ cs
  · -- the comment stands in the last line
    obtain ⟨front, back, hsplit⟩ := List.append_of_mem hcs
    have hback := readLines_comment hc back
    rw [hsplit, List.append_assoc, List.cons_append, readLines_append, readLines_append, hback]
  · have hboth : '\n' ∉ cs ++ ' ' :: ' ' :: '/' :: '/' :: c := by
      rw [List.mem_append, not_or]
      exact ⟨hcs, htail⟩
    rw [readLines_of_notMem hboth, readLines_of_notMem hcs, readable_comment]
termination_by cs.length
decreasing_by
  rw [hsplit, List.length_append, List.length_cons]
  omega

/-! ### The first word of a line -/

theorem IsWord.head_not_blank {w : List Char} (hw : IsWord w) (rest : List Char) :
    ∀ c ∈ (w ++ rest).head?, Text.isBlank c = false := by
  intro c hc
  rw [List.head?_append_of_ne_nil _ hw.1] at hc
  exact isBlank_of_isPlain (hw.2 c (List.mem_of_mem_head? hc))

theorem readable_word {front w : List Char} (hfront : ∀ c ∈ front, c = ' ') (hw : IsWord w) :
    readable (front ++ w) = w := by
  have hblank : ∀ c ∈ front, Text.isBlank c = true := fun c hc => by rw [hfront c hc]; decide
  have hplain : ∀ c ∈ front ++ w, c ≠ '/' ∧ c ≠ '#' := by
    refine List.forall_mem_append.mpr
      ⟨fun c hc => ?_, fun c hc => ne_comment_of_isPlain (hw.2 c hc)⟩
    rw [hfront c hc]
    decide
  rw [readable, withoutComment_of_plain hplain, hw.trim hblank]

theorem readable_label {name : List Char} (h : IsWord name) :
    readable (name ++ [':']) = name ++ [':'] := by
  have hplain : ∀ c ∈ name ++ [':'], c ≠ '/' ∧ c ≠ '#' :=
    List.forall_mem_append.mpr ⟨fun c hc => ne_comment_of_isPlain (h.2 c hc), by decide⟩
  rw [readable, withoutComment_of_plain hplain]
  refine Text.trim_of_ends (h.head_not_blank _) fun c hc => ?_
  rw [List.getLast?_concat, Option.mem_some_iff] at hc
  exact hc ▸ by decide

/-- The first word of a line stays, with a blank if anything is left behind it. -/
theorem readable_directive {front w : List Char} (hfront : ∀ c ∈ front, c = ' ') (hw : IsWord w)
    (rest : List Char) :
    readable (front ++ (w ++ ' ' :: rest)) = w ∨
      ∃ rest', readable (front ++ (w ++ ' ' :: rest)) = w ++ ' ' :: rest' := by
  have hblank : ∀ c ∈ front, Text.isBlank c = true := fun c hc => by rw [hfront c hc]; decide
  have hplain : ∀ c ∈ front ++ (w ++ [' ']), c ≠ '/' ∧ c ≠ '#' := by
    refine List.forall_mem_append.mpr ⟨fun c hc => ?_, List.forall_mem_append.mpr
      ⟨fun c hc => ne_comment_of_isPlain (hw.2 c hc), by decide⟩⟩
    rw [hfront c hc]
    decide
  have hcut : withoutComment (front ++ (w ++ ' ' :: rest)) = front ++
      (w ++ ' ' :: withoutComment rest) := by
    have := withoutComment_append rest hplain
    simpa using this
  have htrim : readable (front ++ (w ++ ' ' :: rest)) =
      Text.trimRight (w ++ ' ' :: withoutComment rest) := by
    rw [readable, hcut, Text.trim, Text.trimLeft_append _ hblank,
      Text.trimLeft_of_head (hw.head_not_blank _)]
  rw [htrim]
  by_cases hrest : ∀ c ∈ withoutComment rest, Text.isBlank c = true
  · left
    rw [Text.trimRight_append _ (List.forall_mem_cons.mpr ⟨by decide, hrest⟩)]
    exact Text.trimRight_of_getLast fun c hc =>
      isBlank_of_isPlain (hw.2 c (List.mem_of_mem_getLast? hc))
  · right
    have hright : Text.trimRight (w ++ ' ' :: withoutComment rest) =
        w ++ ' ' :: Text.trimRight (withoutComment rest) := by
      unfold Text.trimRight
      rw [List.reverse_append, List.reverse_cons, List.append_assoc, List.dropWhile_append, if_neg]
      · simp
      · simpa [List.dropWhile_eq_nil_iff] using hrest
    exact ⟨_, hright⟩

end RvBackend.Asm
