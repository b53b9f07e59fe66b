import Mathlib.Data.List.TakeWhile
import Mathlib.Tactic
import RvBackend.Text.Blank
import RvBackend.Text.Split

/-! # Pieces of a text

How texts that are put together from pieces are cut again: at a separator that no piece holds, and
at blanks that no piece begins or ends with. -/

namespace RvBackend.Text

/-! ### Characters

What holds of the characters of a text is decided by going through the text, and not through all
characters that there are. -/

instance decidableForallChars (cs : List Char) (P : Char → Prop) [DecidablePred P] :
    Decidable (∀ c ∈ cs, P c) :=
  List.decidableBAll P cs

instance decidableForallChar? (c : Option Char) (P : Char → Prop) [DecidablePred P] :
    Decidable (∀ d ∈ c, P d) :=
  Option.decidableForallMem c

/-- A change that leaves each character of a text as it is. -/
theorem map_eq_self {f : Char → Char} {s : String} (h : ∀ c ∈ s.toList, f c = c) : s.map f = s := by
  apply String.toList_injective
  rw [String.toList_map, List.map_congr_left h, List.map_id']

/-! ### Separators -/

theorem splitOn_ne_nil (sep : Char) : ∀ cs : List Char, splitOn sep cs ≠ []
  | [] => List.cons_ne_nil _ _
  | c :: cs => by
    show splitStep sep c (splitOn sep cs) ≠ []
    unfold splitStep
    split
    · exact List.cons_ne_nil _ _
    · split <;> exact List.cons_ne_nil _ _

theorem splitOn_cons_of_ne {sep c : Char} {cs part : List Char} {parts : List (List Char)}
    (hc : c ≠ sep) (h : splitOn sep cs = part :: parts) :
    splitOn sep (c :: cs) = (c :: part) :: parts := by
  show splitStep sep c (splitOn sep cs) = _
  rw [h, splitStep, if_neg hc]

theorem splitOn_of_notMem {sep : Char} : ∀ {cs : List Char}, sep ∉ cs → splitOn sep cs = [cs]
  | [], _ => rfl
  | c :: cs, h => by
    rw [List.mem_cons, not_or] at h
    exact splitOn_cons_of_ne (Ne.symm h.1) (splitOn_of_notMem h.2)

theorem splitOn_append {sep : Char} (rest : List Char) : ∀ {cs : List Char}, sep ∉ cs →
    splitOn sep (cs ++ sep :: rest) = cs :: splitOn sep rest
  | [], _ => by
    show splitStep sep sep (splitOn sep rest) = _
    unfold splitStep
    rw [if_pos rfl]
  | c :: cs, h => by
    rw [List.mem_cons, not_or] at h
    exact splitOn_cons_of_ne (Ne.symm h.1) (splitOn_append rest h.2)

theorem splitOn_append_sep (sep : Char) (ys : List Char) : ∀ xs : List Char,
    splitOn sep (xs ++ sep :: ys) = splitOn sep xs ++ splitOn sep ys
  | [] => by simp [splitOn, splitStep]
  | c :: xs => by
    have ih := splitOn_append_sep sep ys xs
    show splitStep sep c (splitOn sep (xs ++ sep :: ys)) = splitStep sep c (splitOn sep xs) ++ _
    obtain ⟨part, parts, hparts⟩ := List.exists_cons_of_ne_nil (splitOn_ne_nil sep xs)
    rw [ih, hparts]
    unfold splitStep
    split <;> rfl

/-- The longest beginning with a property ends where a character lacks it. -/
theorem span_append {p : Char → Bool} {front rest : List Char} (hfront : ∀ c ∈ front, p c = true)
    (hrest : ∀ c ∈ rest.head?, p c = false) : (front ++ rest).span p = (front, rest) := by
  have hstop : rest.takeWhile p = [] ∧ rest.dropWhile p = rest := by
    cases rest with
    | nil => exact ⟨rfl, rfl⟩
    | cons c rest =>
      have hc : p c = false := hrest c rfl
      simp [hc]
  rw [List.span_eq_takeWhile_dropWhile, List.takeWhile_append_of_pos hfront,
    List.dropWhile_append_of_pos hfront, hstop.1, hstop.2, List.append_nil]

theorem cut_append {sep : Char} (rest : List Char) {cs : List Char} (h : sep ∉ cs) :
    cut sep (cs ++ sep :: rest) = some (cs, rest) := by
  have hall : ∀ c ∈ cs, (c != sep) = true := fun c hc => bne_iff_ne.mpr fun heq => h (heq ▸ hc)
  rw [cut, span_append hall (by simp)]

theorem cut_of_notMem {sep : Char} {cs : List Char} (h : sep ∉ cs) : cut sep cs = none := by
  have hall : ∀ c ∈ cs, (c != sep) = true := fun c hc => bne_iff_ne.mpr fun heq => h (heq ▸ hc)
  have hspan : cs.span (· != sep) = (cs, []) := by
    have hwhole := @span_append _ cs [] hall (by simp)
    rwa [List.append_nil] at hwhole
  rw [cut, hspan]

theorem stripSuffix_append (e cs : List Char) : stripSuffix e (cs ++ e) = some cs := by
  unfold stripSuffix
  rw [if_pos (List.isSuffixOf_iff_suffix.mpr (List.suffix_append cs e))]
  simp

theorem eq_append_of_stripSuffix {e cs name : List Char} (h : stripSuffix e cs = some name) :
    cs = name ++ e := by
  unfold stripSuffix at h
  split at h
  · next hsuffix =>
    obtain ⟨front, rfl⟩ := List.isSuffixOf_iff_suffix.mp hsuffix
    simp at h
    rw [h]
  · cases h

theorem stripSuffix_of_getLast {c : Char} {cs : List Char} (h : cs.getLast? ≠ some c) :
    stripSuffix [c] cs = none := by
  unfold stripSuffix
  rw [if_neg]
  rw [List.isSuffixOf_iff_suffix]
  rintro ⟨front, rfl⟩
  exact h List.getLast?_concat

/-! ### Blanks at the ends -/

theorem trimLeft_of_head {cs : List Char} (h : ∀ c ∈ cs.head?, isBlank c = false) :
    trimLeft cs = cs := by
  cases cs with
  | nil => rfl
  | cons c cs =>
    unfold trimLeft
    rw [List.dropWhile_cons_of_neg]
    rw [h c rfl]
    exact Bool.false_ne_true

theorem trimLeft_append {front : List Char} (cs : List Char) (h : ∀ c ∈ front, isBlank c = true) :
    trimLeft (front ++ cs) = trimLeft cs := List.dropWhile_append_of_pos h

theorem trimRight_of_getLast {cs : List Char} (h : ∀ c ∈ cs.getLast?, isBlank c = false) :
    trimRight cs = cs := by
  unfold trimRight
  have := @trimLeft_of_head cs.reverse (by rwa [List.head?_reverse])
  rw [trimLeft] at this
  rw [this, List.reverse_reverse]

/-- A text without blanks at its ends, behind some blanks. -/
theorem trim_append {front cs : List Char} (hfront : ∀ c ∈ front, isBlank c = true)
    (hhead : ∀ c ∈ cs.head?, isBlank c = false) (hlast : ∀ c ∈ cs.getLast?, isBlank c = false) :
    trim (front ++ cs) = cs := by
  rw [trim, trimLeft_append cs hfront, trimLeft_of_head hhead, trimRight_of_getLast hlast]

theorem trim_of_ends {cs : List Char} (hhead : ∀ c ∈ cs.head?, isBlank c = false)
    (hlast : ∀ c ∈ cs.getLast?, isBlank c = false) : trim cs = cs := by
  rw [trim, trimLeft_of_head hhead, trimRight_of_getLast hlast]

theorem trimRight_append (cs : List Char) {tail : List Char} (h : ∀ c ∈ tail, isBlank c = true) :
    trimRight (cs ++ tail) = trimRight cs := by
  unfold trimRight
  rw [List.reverse_append, List.dropWhile_append_of_pos fun c hc => h c (List.mem_reverse.mp hc)]

theorem trim_append_blanks (cs : List Char) {tail : List Char} (h : ∀ c ∈ tail, isBlank c = true) :
    trim (cs ++ tail) = trim cs := by
  by_cases hcs : ∀ c ∈ cs, isBlank c = true
  · have hleft := trimLeft_append [] hcs
    have hall := trimLeft_append [] (List.forall_mem_append.mpr ⟨hcs, h⟩)
    rw [List.append_nil] at hleft hall
    rw [trim, trim, hleft, hall]
  · have hleft : trimLeft (cs ++ tail) = trimLeft cs ++ tail := by
      unfold trimLeft
      rw [List.dropWhile_append, if_neg]
      simpa [List.dropWhile_eq_nil_iff] using hcs
    rw [trim, trim, hleft, trimRight_append _ h]

end RvBackend.Text
