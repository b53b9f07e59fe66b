import RvBackend.Proofs.Asm.Listing

/-! # Text that is refused

A number that does not fit a word of 32 bits has no place in an instruction. A text with such a
number is refused, whatever stands around it.

* `Refused`: a line that is not read, whatever was read before it.
* `refused_op`: an instruction with too wide a number.
* `parse_of_wide`: the text of a program with such an instruction. -/

namespace RvBackend.Asm

open Machine

/-! ### Lines -/

/-- A line that is not read, whatever was read before it. -/
def Refused (line : List Char) : Prop :=
  ∀ (s : Loader) (n : ℕ), ∃ fault, s.addLine n (Text.trim (withoutComment line)) = .error fault

theorem loadLines_of_refused {line : List Char} (h : Refused line) : ∀ {lines : List (List Char)},
    line ∈ lines → ∀ (s : Loader) (n : ℕ), ∃ e, loadLines s n lines = .error e
  | [], hmem, _, _ => absurd hmem List.not_mem_nil
  | first :: lines, hmem, s, n => by
    rw [loadLines]
    rcases List.mem_cons.mp hmem with rfl | hmem
    · obtain ⟨fault, hfault⟩ := h s n
      rw [hfault]
      exact ⟨_, rfl⟩
    · split
      · exact ⟨_, rfl⟩
      · exact loadLines_of_refused h hmem _ _

theorem parse_of_refused {line : List Char} {text : String} (h : Refused line) (hline : '\n' ∉ line)
    (hwithin : '\n' :: (line ++ ['\n']) <:+: text.toList) : ∃ e, Listing.parse text = .error e := by
  obtain ⟨front, back, htext⟩ := hwithin
  have hsplit : Text.splitOn '\n' text.toList =
      Text.splitOn '\n' front ++ (line :: Text.splitOn '\n' back) := by
    have hchars : text.toList = front ++ '\n' :: (line ++ '\n' :: back) := by rw [← htext]; simp
    rw [hchars, Text.splitOn_append_sep, Text.splitOn_append _ hline]
  obtain ⟨e, he⟩ := loadLines_of_refused h (List.mem_append_right _ List.mem_cons_self) {} 1
  refine ⟨e, ?_⟩
  rw [Listing.parse, hsplit, he]
  rfl

/-! ### Instructions -/

/-- A printed number is read as a word, or refused. -/
theorem parseOperand_number (n : Int64) : parseOperand (Text.decimalChars n.toInt) =
    if -(Text.wordCount 31 : ℤ) ≤ n.toInt ∧
    n.toInt < Text.wordCount 32 then .ok (.imm (Int32.ofInt n.toInt))
    else .error (.immediate (String.ofList (Text.decimalChars n.toInt))) := by
  have hword : Text.inWord 64 n.toInt = true := by
    have h63 : (Text.wordCount 63 : ℤ) = 2 ^ 63 := by decide
    have hlow := n.le_toInt
    have hhigh := n.toInt_lt
    rw [Text.inWord, Bool.and_eq_true, decide_eq_true_eq, decide_eq_true_eq, h63]
    omega
  rw [parseOperand_decimalChars, parseImmOrLabel, Text.readLiteral_decimalChars (le_refl 64) hword]

theorem parseOperand_wide {n : Int64} (h : n.toInt < -2 ^ 31 ∨ 2 ^ 32 ≤ n.toInt) :
    ∃ fault, parseOperand (Text.decimalChars n.toInt) = .error fault := by
  have hrange : ¬ (-(Text.wordCount 31 : ℤ) ≤ n.toInt ∧ n.toInt < Text.wordCount 32) := by
    have h31 : (Text.wordCount 31 : ℤ) = 2 ^ 31 := by decide
    have h32 : (Text.wordCount 32 : ℤ) = 2 ^ 32 := by decide
    omega
  rw [parseOperand_number]
  exact ⟨_, if_neg hrange⟩

theorem mapM_parseOperand_of_error {w : List Char} {fault : LineFault}
    (h : parseOperand w = .error fault) :
    ∀ {ws : List (List Char)}, w ∈ ws → ∃ fault', ws.mapM parseOperand = .error fault'
  | [], hmem => absurd hmem List.not_mem_nil
  | w' :: ws, hmem => by
    rw [List.mapM_cons]
    cases hparse : parseOperand w' with
    | error fault' => exact ⟨fault', rfl⟩
    | ok o =>
      rcases List.mem_cons.mp hmem with rfl | hmem
      · rw [h] at hparse
        cases hparse
      · obtain ⟨fault', hfault'⟩ := mapM_parseOperand_of_error h hmem
        exact ⟨fault', by rw [hfault']; rfl⟩

theorem addInstruction_of_error {s : Loader} {n : ℕ} {m : String} {rest : List Char}
    {fault : LineFault} (h : (splitOperands rest).mapM parseOperand = .error fault) :
    ∃ fault', s.addInstruction n m rest = .error fault' := by
  unfold Loader.addInstruction
  split
  · rw [h]
    exact ⟨fault, rfl⟩
  · exact ⟨_, rfl⟩

/-- The printed sum of a register and a number that is too wide. -/
theorem refused_addi {r r' : String} (hr : (Register.ofName? r).isSome)
    (hr' : (Register.ofName? r').isSome) {n : Int64} (h : n.toInt < -2 ^ 31 ∨ 2 ^ 32 ≤ n.toInt) :
    ∃ t line, (Line.op "addi" [.reg r, .reg r', .imm n]).text? = some t ∧
      t.toList = line ++ ['\n'] ∧
      '\n' ∉ line ∧ Refused line := by
  obtain ⟨text, -, htext, -, hword, -⟩ := @parseOperand_text (.reg r) hr
  obtain ⟨text', -, htext', -, hword', -⟩ := @parseOperand_text (.reg r') hr'
  have hnumber : (Text.decimal n.toInt).toList = Text.decimalChars n.toInt := String.toList_ofList
  have himm : (Operand.imm n).text? = some (Text.decimal n.toInt) := rfl
  have htexts : [.reg r, .reg r', .imm n].mapM Operand.text? =
      some [text, text', Text.decimal n.toInt] := by
    simp [List.mapM_cons, htext, htext', himm]
  obtain ⟨t, ht, hchars⟩ := @toList_opText "addi" _ _ htexts rfl
  have hm : IsWord "addi".toList := ⟨by decide, by decide⟩
  have hws : ∀ w ∈ [text, text', Text.decimal n.toInt].map String.toList, IsWord w := by
    simp only [List.map_cons, List.map_nil, List.forall_mem_cons, List.not_mem_nil, false_implies,
      implies_true, and_true, hnumber]
    exact ⟨hword, hword', isWord_decimalChars _⟩
  refine ⟨t, _, ht, hchars, newline_notMem_opLine hm hws, fun s k => ?_⟩
  obtain ⟨rest, hline, hsplit⟩ := @addLine_opChars s k _ _ hm (by decide) hws
  obtain ⟨fault, hfault⟩ := parseOperand_wide h
  rw [trim_opLine hm hws, hline]
  have hmem : Text.decimalChars n.toInt ∈ [text, text', Text.decimal n.toInt].map
      String.toList := by
    simp [hnumber]
  obtain ⟨fault', hfault'⟩ := mapM_parseOperand_of_error hfault hmem
  exact addInstruction_of_error (hsplit ▸ hfault')

/-! ### Programs -/

theorem newline_of_text? {l : Line} {t : String} (h : l.text? = some t) :
    ∃ cs, t.toList = cs ++ ['\n'] := by
  cases hcontent : l.content with
  | blank =>
    rw [Line.text?, hcontent] at h
    cases h
    exact ⟨_, String.toList_append⟩
  | label name =>
    rw [Line.text?, hcontent] at h
    cases h
    exact ⟨_, String.toList_append⟩
  | op m os =>
    simp only [Line.text?, hcontent, Option.bind_eq_bind, Option.bind_eq_some_iff] at h
    obtain ⟨operands, -, h⟩ := h
    cases h
    exact ⟨_, String.toList_append⟩

/-- A printed line stands between two ends of lines. -/
theorem infix_of_lines {l : Line} {t : String} (ht : l.text? = some t) :
    ∀ {ls : List Line} {ts : List String},
    ls.mapM Line.text? = some ts → l ∈ ls → '\n' :: t.toList <:+: '\n' :: (String.join ts).toList
  | [], _, _, hmem => absurd hmem List.not_mem_nil
  | l' :: ls, _, hts, hmem => by
    simp only [List.mapM_cons, Option.bind_eq_bind, Option.bind_eq_some_iff] at hts
    obtain ⟨t', ht', ts, hts, heq⟩ := hts
    cases heq
    rw [String.join_cons, String.toList_append]
    rcases List.mem_cons.mp hmem with rfl | hmem
    · obtain rfl : t = t' := Option.some.inj (ht.symm.trans ht')
      exact ⟨[], (String.join ts).toList, rfl⟩
    · obtain ⟨cs, hcs⟩ := newline_of_text? ht'
      refine (infix_of_lines ht hts hmem).trans ⟨'\n' :: cs, [], ?_⟩
      rw [hcs]
      simp

theorem infix_of_join {t : String} :
    ∀ {ts : List String}, t ∈ ts → t.toList <:+: (String.join ts).toList
  | [], hmem => absurd hmem List.not_mem_nil
  | t' :: ts, hmem => by
    rw [String.join_cons, String.toList_append]
    rcases List.mem_cons.mp hmem with rfl | hmem
    · exact List.infix_append [] _ _
    · exact (infix_of_join hmem).trans (List.suffix_append _ _).isInfix

theorem mapM_eq_some {α β : Type} {f : α → Option β} : ∀ {xs : List α} {ys : List β},
    xs.mapM f = some ys → ∀ x ∈ xs, ∃ y ∈ ys, f x = some y
  | [], _, _, x, hx => absurd hx List.not_mem_nil
  | x' :: xs, _, h, x, hx => by
    simp only [List.mapM_cons, Option.bind_eq_bind, Option.bind_eq_some_iff] at h
    obtain ⟨y, hy, ys, hys, heq⟩ := h
    cases heq
    rcases List.mem_cons.mp hx with rfl | hx
    · exact ⟨y, List.mem_cons_self, hy⟩
    · obtain ⟨y', hy', hx⟩ := mapM_eq_some hys x hx
      exact ⟨y', List.mem_cons_of_mem _ hy', hx⟩

theorem infix_behind_label (header rest : String) :
    '\n' :: rest.toList <:+: (header ++ ":\n" ++ rest).toList := by
  refine ⟨header.toList ++ [':'], [], ?_⟩
  simp

theorem infix_of_program {p : Program} {text t : String} {f : Function} {l : Line}
    (htext : p.text? = some text) (hf : f ∈ p.functions) (hl : l ∈ f.lines)
    (ht : l.text? = some t) : '\n' :: t.toList <:+: text.toList := by
  simp only [Program.text?, Option.bind_eq_bind, Option.bind_eq_some_iff] at htext
  obtain ⟨texts, htexts, heq⟩ := htext
  cases heq
  obtain ⟨ftext, hmem, hftext⟩ := mapM_eq_some htexts f hf
  rw [String.toList_append]
  refine List.IsInfix.trans ?_ (List.suffix_append _ _).isInfix
  refine List.IsInfix.trans ?_ (infix_of_join hmem)
  simp only [Function.text?, Option.bind_eq_bind, Option.bind_eq_some_iff] at hftext
  obtain ⟨ts, hts, heq⟩ := hftext
  cases heq
  exact (infix_of_lines ht hts hl).trans (infix_behind_label _ _)

/-- **A program with too wide a number** is printed as a text that is refused. -/
theorem parse_of_wide {p : Program} {text : String} {f : Function} {r r' : String} {n : Int64}
    (htext : p.text? = some text) (hf : f ∈ p.functions)
    (hl : .op "addi" [.reg r, .reg r', .imm n] ∈ f.lines) (hr : (Register.ofName? r).isSome)
    (hr' : (Register.ofName? r').isSome) (h : n.toInt < -2 ^ 31 ∨ 2 ^ 32 ≤ n.toInt) :
    ∃ e, Listing.parse text = .error e := by
  obtain ⟨t, line, ht, hchars, hline, hrefused⟩ := refused_addi hr hr' h
  refine parse_of_refused hrefused hline ?_
  rw [← hchars]
  exact infix_of_program htext hf hl ht

end RvBackend.Asm
