import RvBackend.Proofs.Machine.State
import RvBackend.Proofs.Text.Decimal
import RvBackend.Proofs.Text.Pieces
import RvBackend.Proofs.Text.Utf8

/-! # Integers on the two streams

The helper that prints writes an integer and the end of a line; the helper that reads takes the next
word between blanks. So what one machine has printed is read by another one as the same integers,
and other blanks between them make no difference.

* `Input.nextInteger_text`: the next integer of a text that begins with blanks and a decimal.
* `Prints`, `ReadsBack`: what the calls of a helper come to, one after the other, whatever a program
  does between them.
* `printed_integers_read_back`: the integers that were printed are read back, and no more. -/

namespace RvBackend

/-! ### Decimals as words -/

namespace Text

theorem isBlank_of_mem_decimalChars {n : ℤ} {c : Char} (h : c ∈ decimalChars n) :
    isBlank c = false := by
  have hall : ['-', '0', '1', '2', '3', '4', '5', '6', '7', '8', '9'].all (!isBlank ·) = true := by
    decide
  have hc := List.all_eq_true.mp hall c (mem_decimalChars h)
  simpa using hc

/-- A number below a power of ten has no more digits than the power has zeros. -/
theorem length_digitsOf_le {n k : ℕ} (hn : n < 10 ^ (k + 1)) : (digitsOf 10 n).length ≤ k + 1 := by
  induction k generalizing n with
  | zero =>
    rw [digitsOf, dif_pos (by omega)]
    exact le_rfl
  | succ k ih =>
    rw [digitsOf]
    split
    · simp
    · have hdiv : n / 10 < 10 ^ (k + 1) := by
        rw [Nat.div_lt_iff_lt_mul (by omega), ← pow_succ]
        exact hn
      have hrest := ih hdiv
      rw [List.length_append, List.length_singleton]
      omega

theorem length_decimalChars_le (n : Int32) : (decimalChars n.toInt).length ≤ 11 := by
  have hlow := n.le_toInt
  have hhigh := n.toInt_lt
  cases hn : n.toInt with
  | ofNat m =>
    rw [hn, Int.ofNat_eq_natCast] at hhigh
    have hlength : (digitsOf 10 m).length ≤ 9 + 1 := length_digitsOf_le (by omega)
    rw [decimalChars]
    omega
  | negSucc m =>
    rw [hn, Int.negSucc_eq] at hlow
    have hlength : (digitsOf 10 (m + 1)).length ≤ 9 + 1 := length_digitsOf_le (by omega)
    rw [decimalChars, List.length_cons]
    omega

theorem length_utf8_le (cs : List Char) : (utf8 (String.ofList cs)).length ≤ 4 * cs.length := by
  rw [utf8_eq_flatMap, String.toList_ofList]
  induction cs with
  | nil => exact le_rfl
  | cons c cs ih =>
    have hchar : (String.utf8EncodeChar c).length ≤ 4 := by
      rw [String.length_utf8EncodeChar]
      exact c.utf8Size_le_four
    rw [List.flatMap_cons, List.length_append, List.length_cons]
    omega

end Text

namespace Machine

open Asm (Register)

/-- The integer that a decimal begins with is the number that it writes. -/
theorem leadingInteger?_decimalChars {n : ℤ} (h : Text.inWord 64 n = true) :
    leadingInteger? (Text.decimalChars n) = some n := by
  have hdigits : ∀ m : ℕ, (Text.digitsOf 10 m).takeWhile Char.isDigit = Text.digitsOf 10 m :=
    fun m =>
    List.takeWhile_eq_self_iff.mpr fun c hc => Text.isDigit_of_mem_digitsOf hc
  have hempty : ∀ m : ℕ, (Text.digitsOf 10 m).isEmpty = false := fun m => by
    simpa using Text.digitsOf_ne_nil m
  unfold leadingInteger?
  cases n with
  | ofNat m =>
    have hvalue : Text.signed false m = Int.ofNat m := rfl
    rw [Text.decimalChars, Text.readSign_digitsOf]
    simp only [hdigits, hempty, Text.readDigits_digitsOf, Option.map_some, hvalue,
      Option.filter_some, h]
    rfl
  | negSucc m =>
    have hvalue : Text.signed true (m + 1) = Int.negSucc m := rfl
    have hsign : Text.readSign (Text.decimalChars (.negSucc m)) =
      (true, Text.digitsOf 10 (m + 1)) := rfl
    rw [hsign]
    simp only [hdigits, hempty, Text.readDigits_digitsOf, Option.map_some, hvalue,
      Option.filter_some, h]
    rfl

/-! ### The next integer -/

/-- **The next integer** of a text that begins with blanks and a decimal. Of the text behind it, one
blank is taken. -/
theorem Input.nextInteger_text (n : Int32) {blanks rest : List Char}
    (hblanks : ∀ c ∈ blanks, Text.isBlank c = true)
    (hrest : ∀ c ∈ rest.head?, Text.isBlank c = true) :
    (Input.text (blanks ++ (Text.decimalChars n.toInt ++ rest))).nextInteger =
      (.ok n, .text (rest.drop 1)) := by
  have hplain : ∀ c ∈ Text.decimalChars n.toInt, Text.isBlank c = false := fun c hc =>
    Text.isBlank_of_mem_decimalChars hc
  obtain ⟨d, ds, hds⟩ := List.exists_cons_of_ne_nil (Text.decimalChars_ne_nil n.toInt)
  have htrim : Text.trimLeft (blanks ++ (Text.decimalChars n.toInt ++ rest)) =
      Text.decimalChars n.toInt ++ rest := by
    rw [Text.trimLeft_append _ hblanks]
    refine Text.trimLeft_of_head fun c hc => hplain c ?_
    rw [hds] at hc ⊢
    obtain rfl : d = c := by simpa using hc
    exact List.mem_cons_self
  have hspan : (Text.decimalChars n.toInt ++ rest).span (!Text.isBlank ·) =
      (Text.decimalChars n.toInt, rest) := by
    refine Text.span_append (fun c hc => ?_) fun c hc => ?_
    · rw [hplain c hc]; rfl
    · rw [hrest c hc]; rfl
  have hword : (Text.decimalChars n.toInt).isEmpty = false := by rw [hds]; rfl
  -- a decimal and the blank behind it fit the buffer by far
  have hfits : (Text.utf8 (String.ofList (Text.decimalChars n.toInt))).length +
      (rest.head?.map Input.width).getD 1 ≤ Input.bufferSize := by
    have hbytes := Text.length_utf8_le (Text.decimalChars n.toInt)
    have hchars := Text.length_decimalChars_le n
    have hbehind : (rest.head?.map Input.width).getD 1 ≤ 4 := by
      cases rest.head? with
      | none => simp
      | some c => exact c.utf8Size_le_four
    unfold Input.bufferSize
    omega
  have hnext : (Input.text (blanks ++ (Text.decimalChars n.toInt ++ rest))).next =
      (.ok (Text.utf8 (String.ofList (Text.decimalChars n.toInt))), .text (rest.drop 1)) := by
    simp only [Input.next, htrim, hspan, hword, hfits]
    rfl
  have hrange : Text.inWord 64 n.toInt = true := by
    have h63 : (Text.wordCount 63 : ℤ) = 2 ^ 63 := by decide
    have hlow := n.le_toInt
    have hhigh := n.toInt_lt
    rw [Text.inWord, Bool.and_eq_true, decide_eq_true_eq, decide_eq_true_eq, h63]
    omega
  simp only [Input.nextInteger, hnext, Text.charsOfBytes_utf8, String.toList_ofList,
    leadingInteger?_decimalChars hrange, Int32.ofInt_toInt]

/-- There is no integer among blanks. -/
theorem Input.nextInteger_blanks {blanks : List Char}
    (hblanks : ∀ c ∈ blanks, Text.isBlank c = true) :
    (Input.text blanks).nextInteger = (.error .exhausted, .text []) := by
  have htrim : Text.trimLeft blanks = [] := List.dropWhile_eq_nil_iff.mpr hblanks
  simp only [Input.nextInteger, Input.next, htrim]
  rfl

/-! ### Integers between blanks -/

/-- The texts of some integers: decimals with blanks around them, and at least one between two of
them. -/
inductive Spaced : List Int32 → List Char → Prop where
  | nil {blanks : List Char} (hblanks : ∀ c ∈ blanks, Text.isBlank c = true) : Spaced [] blanks
  | cons {n : Int32} {ns : List Int32} {blanks cs : List Char}
      (hblanks : ∀ c ∈ blanks, Text.isBlank c = true) (hcs : Spaced ns cs)
      (hbetween : ∀ c ∈ cs.head?, Text.isBlank c = true) :
      Spaced (n :: ns) (blanks ++ (Text.decimalChars n.toInt ++ cs))

/-- A blank at the front may be left out. -/
theorem Spaced.tail {ns : List Int32} {c : Char} {cs : List Char} (h : Spaced ns (c :: cs))
    (hc : Text.isBlank c = true) : Spaced ns cs := by
  generalize htext : c :: cs = text at h
  cases h with
  | nil hblanks =>
    rw [← htext] at hblanks
    exact .nil (List.forall_mem_cons.mp hblanks).2
  | @cons n ns blanks rest hblanks hrest hbetween =>
    cases blanks with
    | nil =>
      -- the first character of a decimal is no blank
      have hmem : c ∈ Text.decimalChars n.toInt := by
        obtain ⟨d, ds, hds⟩ := List.exists_cons_of_ne_nil (Text.decimalChars_ne_nil n.toInt)
        rw [hds] at htext ⊢
        obtain rfl : c = d := (List.cons.inj htext).1
        exact List.mem_cons_self
      rw [Text.isBlank_of_mem_decimalChars hmem] at hc
      cases hc
    | cons b blanks =>
      obtain ⟨rfl, rfl⟩ := List.cons.inj htext
      exact .cons (List.forall_mem_cons.mp hblanks).2 hrest hbetween

theorem Spaced.drop {ns : List Int32} {cs : List Char} (h : Spaced ns cs)
    (hhead : ∀ c ∈ cs.head?, Text.isBlank c = true) : Spaced ns (cs.drop 1) := by
  cases cs with
  | nil => exact h
  | cons c cs => exact h.tail (hhead c rfl)

/-- What is printed of some integers: each on a line of its own. -/
def printedChars (ns : List Int32) : List Char :=
  ns.flatMap fun n => Text.decimalChars n.toInt ++ ['\n']

theorem spaced_printedChars (ns : List Int32) {blanks : List Char}
    (hblanks : ∀ c ∈ blanks, Text.isBlank c = true) :
    Spaced ns (blanks ++ printedChars ns) := by
  induction ns generalizing blanks with
  | nil =>
    rw [printedChars, List.flatMap_nil, List.append_nil]
    exact .nil hblanks
  | cons n ns ih =>
    have hnewline : ∀ c ∈ ['\n'], Text.isBlank c = true := by decide
    have htext : printedChars (n :: ns) = Text.decimalChars n.toInt ++
        (['\n'] ++ printedChars ns) := by
      simp [printedChars]
    rw [htext]
    exact .cons hblanks (ih hnewline) (by simp; decide)

/-! ### Calls of the helpers -/

/-- A call of the helper that prints, in any state with the output `o` and the argument `n`, is
carried out and leaves the output `o'`. -/
def PrintCall (o : Sink) (n : Int32) (o' : Sink) : Prop :=
  ∀ (names : Names) (code : Listing) (s : State) (link : Register), s.output = o →
    s.reg Register.a0 = n →
    ∃ s', step names code s (.call link names.printHelper) = (s', .running) ∧ s'.output = o'

/-- A call of the helper that reads, in any state with the input `i`, is carried out, leaves the
input `i'` and returns `n`. The result is lost only if the call wants its return address in the
register of the result. A name that the helper which prints has as well is not a name of this
one. -/
def ReadCall (i : Input) (n : Int32) (i' : Input) : Prop :=
  ∀ (names : Names) (code : Listing) (s : State) (link : Register),
    names.readHelper ≠ names.printHelper → s.input = i →
    ∃ s', step names code s (.call link names.readHelper) = (s', .running) ∧ s'.input = i' ∧
      (link ≠ Register.a0 → s'.reg Register.a0 = n)

/-- A call of the helper that reads, in any state with the input `i`, is refused because the input
is used up. -/
def ReadEnds (i : Input) : Prop :=
  ∀ (names : Names) (code : Listing) (s : State) (link : Register),
    names.readHelper ≠ names.printHelper → s.input = i →
    ∃ s', step names code s (.call link names.readHelper) = (s', .trapped (.input .exhausted))

/-- The integers are printed by calls one after the other, which take the output from `o` to the
last one. Between two calls a program may do anything but print. -/
def Prints (o : Sink) : List Int32 → Sink → Prop
  | [], o' => o' = o
  | n :: ns, o' => ∃ o₁, PrintCall o n o₁ ∧ Prints o₁ ns o'

/-- The integers are read by calls one after the other, and the next call finds no more. Between two
calls a program may do anything but read. -/
def ReadsBack (i : Input) : List Int32 → Prop
  | [] => ReadEnds i
  | n :: ns => ∃ i', ReadCall i n i' ∧ ReadsBack i' ns

theorem printCall_write {o : Sink} (ho : o.room = none) (n : Int32) :
    PrintCall o n { o with taken := o.taken ++ Text.utf8 (Text.decimal n.toInt ++ "\n") } := by
  intro names code s link houtput hn
  have hwrite : s.output.write (Text.decimal (s.reg Register.a0).toInt ++ "\n") =
      ({ o with taken := o.taken ++ Text.utf8 (Text.decimal n.toInt ++ "\n") }, true) := by
    simp only [houtput, hn, Sink.write, ho]
  simp only [step, State.callLabel, State.printInteger, hwrite, if_true]
  exact ⟨_, rfl, by rw [State.output_next, State.output_setReg]⟩

theorem readCall_of_next {i i' : Input} {n : Int32} (h : i.nextInteger = (.ok n, i')) :
    ReadCall i n i' := by
  intro names code s link hnames hinput
  simp only [step, State.callLabel, if_neg hnames, State.readInteger, hinput, h, if_true]
  refine ⟨_, rfl, ?_, fun hlink => ?_⟩
  · rw [State.input_next, State.input_setReg, State.input_setReg]
  · rw [State.reg_next, State.reg_setReg_of_ne _ _ hlink.symm,
      State.reg_setReg_self _ _ (by decide)]

theorem readEnds_of_next {i i' : Input} (h : i.nextInteger = (.error .exhausted, i')) :
    ReadEnds i := by
  intro names code s link hnames hinput
  simp only [step, State.callLabel, if_neg hnames, State.readInteger, hinput, h, if_true]
  exact ⟨_, rfl⟩

/-- **Integers between blanks are read back.** -/
theorem readsBack_of_spaced {ns : List Int32} {cs : List Char} (h : Spaced ns cs) :
    ReadsBack (.text cs) ns := by
  induction ns generalizing cs with
  | nil =>
    cases h with
    | nil hblanks => exact readEnds_of_next (Input.nextInteger_blanks hblanks)
  | cons n ns ih =>
    cases h with
    | cons hblanks hcs hbetween =>
      exact ⟨_, readCall_of_next (Input.nextInteger_text n hblanks hbetween),
        ih (hcs.drop hbetween)⟩

/-- **Integers are printed**, each on a line of its own. -/
theorem exists_prints (ns : List Int32) {o : Sink} (ho : o.room = none) :
    ∃ o', Prints o ns o' ∧
      o'.taken.toList = o.taken.toList ++ Text.utf8 (String.ofList (printedChars ns)) := by
  induction ns generalizing o with
  | nil => exact ⟨o, rfl, (List.append_nil _).symm⟩
  | cons n ns ih =>
    have hline := printCall_write ho n
    obtain ⟨o', hrest, htaken⟩ :=
      @ih { o with taken := o.taken ++ Text.utf8 (Text.decimal n.toInt ++ "\n") } ho
    have htext : String.ofList (printedChars (n :: ns)) =
        Text.decimal n.toInt ++ "\n" ++ String.ofList (printedChars ns) := by
      apply String.toList_injective
      simp [printedChars, Text.decimal]
    refine ⟨o', ⟨_, hline, hrest⟩, ?_⟩
    rw [htaken, htext, Text.utf8_append (_ ++ _), Array.toList_appendList, List.append_assoc]

/-- **Integers that were printed are read back**: a machine that gets the output of the calls as its
input reads the same integers in the same order, and then finds no more; and so it does whatever
blanks there are between the decimals. -/
theorem printed_integers_read_back (ns : List Int32) :
    (∃ o, Prints {} ns o ∧ ReadsBack (.text o.text.toList) ns) ∧ ∀ cs, Spaced ns cs →
      ReadsBack (.text cs) ns := by
  obtain ⟨o, hprints, htaken⟩ := exists_prints ns (o := {}) rfl
  have hbytes : o.taken.toList = Text.utf8 (String.ofList (printedChars ns)) := htaken
  have htext : o.text.toList = printedChars ns := by
    rw [Sink.text, Text.textOfBytes, String.toList_ofList, hbytes, Text.charsOfBytes_utf8,
      String.toList_ofList]
  refine ⟨⟨o, hprints, ?_⟩, fun cs hcs => readsBack_of_spaced hcs⟩
  rw [htext]
  exact readsBack_of_spaced (spaced_printedChars ns (fun c hc => absurd hc List.not_mem_nil))

end Machine

end RvBackend
