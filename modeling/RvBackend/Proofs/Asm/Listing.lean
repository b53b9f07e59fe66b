import RvBackend.Proofs.Asm.Loading
import RvBackend.Proofs.Text.Utf8

/-! # Programs are read back

A printed program begins with the name of its file, reserves its variables, places its constants and
then lists its functions. Read by the machine, it gives a listing with exactly the labels, words and
instructions of the program.

* `Reflects`: a listing holds what a program holds.
* `parse_text`: a program whose lines can be read is read back as such a listing. -/

namespace RvBackend.Asm

open Machine

/-! ### The name of the file -/

/-- A text in which no comment begins. -/
def Uncommented (cs : List Char) : Prop := '#' ∉ cs ∧ ¬ ['/', '/'] <:+: cs

instance (cs : List Char) : Decidable (Uncommented cs) :=
  inferInstanceAs (Decidable ('#' ∉ cs ∧ ¬ ['/', '/'] <:+: cs))

theorem Uncommented.tail {c : Char} {cs : List Char} (h : Uncommented (c :: cs)) : Uncommented cs :=
  ⟨fun hmem => h.1 (List.mem_cons_of_mem _ hmem),
    fun hin => h.2 (hin.trans (List.suffix_cons c cs).isInfix)⟩

theorem withoutComment_slash {cs : List Char} (h : cs.head? ≠ some '/') :
    withoutComment ('/' :: cs) = '/' :: withoutComment cs := by
  rw [withoutComment]
  · decide
  · rintro ds - rfl
    exact h rfl

/-- A byte that is neither a slash nor a hash is written without both, and no byte breaks the
line. -/
theorem mem_escapeByte {b : UInt8} {c : Char} (h : c ∈ Text.escapeByte b) :
    c ≠ '\n' ∧ (b ≠ 0x2f → c ≠ '/') ∧ (b ≠ 0x23 → c ≠ '#') := by
  have hall : ∀ n < 256, ∀ c ∈ Text.escapeByte (UInt8.ofNat n),
      c ≠ '\n' ∧ (UInt8.ofNat n ≠ 0x2f → c ≠ '/') ∧ (UInt8.ofNat n ≠ 0x23 → c ≠ '#') := by
    decide +kernel
  have hb := hall b.toNat b.toNat_lt
  rw [UInt8.ofNat_toNat] at hb
  exact hb c h

theorem escapeByte_ne_nil (b : UInt8) : Text.escapeByte b ≠ [] := by
  unfold Text.escapeByte
  split_ifs <;> exact List.cons_ne_nil _ _

/-- The bytes of a character beyond ASCII are beyond ASCII. -/
theorem mem_utf8EncodeChar {c : Char} {b : UInt8} (h : b ∈ String.utf8EncodeChar c) :
    b.toNat = c.toNat ∨ 0x80 ≤ b.toNat := by
  simp only [String.utf8EncodeChar] at h
  split_ifs at h with h1 h2 h3
  · rw [List.mem_singleton] at h
    subst h
    left
    rw [UInt8.toNat_ofNat']
    exact Nat.mod_eq_of_lt (by omega)
  all_goals
    right
    simp only [List.mem_cons, List.not_mem_nil, or_false] at h
    rcases h with rfl | rfl | rfl | rfl <;> rw [UInt8.toNat_ofNat'] <;> omega

/-- A character in a string of the assembler. -/
def escapeChar (c : Char) : List Char := (String.utf8EncodeChar c).flatMap Text.escapeByte

theorem escapeText_eq (text : String) :
    (Text.escapeText text).toList = text.toList.flatMap escapeChar := by
  rw [Text.escapeText, String.toList_ofList, Text.escape, Text.utf8_eq_flatMap, List.flatMap_assoc]
  rfl

theorem escapeChar_slash : escapeChar '/' = ['/'] := by decide +kernel

theorem mem_escapeChar {c d : Char} (h : d ∈ escapeChar c) :
    d ≠ '\n' ∧ (c ≠ '/' → d ≠ '/') ∧ (c ≠ '#' → d ≠ '#') := by
  obtain ⟨b, hb, hd⟩ := List.mem_flatMap.mp h
  obtain ⟨hnewline, hslash, hhash⟩ := mem_escapeByte hd
  have hbyte : ∀ x : Char, x.toNat < 0x80 → c ≠ x → b ≠ UInt8.ofNat x.toNat := by
    rintro x hx hc rfl
    have hval : (UInt8.ofNat x.toNat).toNat = x.toNat := by
      rw [UInt8.toNat_ofNat']
      omega
    rcases mem_utf8EncodeChar hb with heq | hge
    · exact hc (Char.toNat_inj.mp (heq.symm.trans hval))
    · omega
  exact ⟨hnewline, fun hc => hslash (hbyte '/' (by decide) hc),
    fun hc => hhash (hbyte '#' (by decide) hc)⟩

theorem escapeChar_ne_nil (c : Char) : escapeChar c ≠ [] := by
  have hne : String.utf8EncodeChar c ≠ [] := by
    simp only [String.utf8EncodeChar]
    split_ifs <;> exact List.cons_ne_nil _ _
  obtain ⟨b, bs, hbs⟩ := List.exists_cons_of_ne_nil hne
  rw [escapeChar, hbs, List.flatMap_cons]
  simp [escapeByte_ne_nil]

/-- The name of a file, up to the quote behind it, is no comment. -/
theorem withoutComment_escape : ∀ {cs : List Char}, Uncommented cs →
    withoutComment (cs.flatMap escapeChar ++ ['"']) = cs.flatMap escapeChar ++ ['"']
  | [], _ => rfl
  | c :: cs, h => by
    have ih := withoutComment_escape h.tail
    by_cases hslash : c = '/'
    · subst hslash
      -- no second slash follows, also not from the next character
      have hhead : (cs.flatMap escapeChar ++ ['"']).head? ≠ some '/' := by
        cases cs with
        | nil => decide
        | cons d cs =>
          have hd : d ≠ '/' := by
            rintro rfl
            exact h.2 ⟨[], cs, rfl⟩
          rw [List.flatMap_cons, List.append_assoc,
            List.head?_append_of_ne_nil _ (escapeChar_ne_nil d)]
          intro hhead
          exact (mem_escapeChar (List.mem_of_mem_head? hhead)).2.1 hd rfl
      rw [List.flatMap_cons, escapeChar_slash, List.append_assoc]
      show withoutComment ('/' :: (cs.flatMap escapeChar ++ ['"'])) = _
      rw [withoutComment_slash hhead, ih]
      rfl
    · have hhash : c ≠ '#' := fun hc => h.1 (hc ▸ List.mem_cons_self)
      rw [List.flatMap_cons, List.append_assoc, withoutComment_append, ih]
      exact fun d hd => ⟨(mem_escapeChar hd).2.1 hslash, (mem_escapeChar hd).2.2 hhash⟩

/-! ### Directives -/

/-- A directive in a line of its own. -/
theorem loads_directive {s s' : Loader} {n : ℕ} {front d rest : List Char}
    (hfront : ∀ c ∈ front, c = ' ') (hd : d.head? = some '.') (hblank : ' ' ∉ d)
    (hcomment : withoutComment (front ++ (d ++ ' ' :: rest)) = front ++ (d ++ ' ' :: rest))
    (hnewline : '\n' ∉ d ∧ '\n' ∉ rest)
    (hlast : ∃ c, rest.getLast? = some c ∧ c ≠ ':' ∧ Text.isBlank c = false)
    (h : s.directive (String.ofList d) (Text.trim rest) = .ok s') :
    Loads s n (front ++ (d ++ ' ' :: rest) ++ ['\n']) s' (n + 1) := by
  obtain ⟨c, hc, hcolon, hcblank⟩ := hlast
  have hgetLast : (d ++ ' ' :: rest).getLast? = some c := by
    rw [List.getLast?_append, List.getLast?_cons, hc]
    rfl
  have hdne : d ≠ [] := by
    rintro rfl
    cases hd
  refine loads_line ?_ ?_
  · simp only [List.mem_append, List.mem_cons, not_or]
    exact ⟨fun hmem => absurd (hfront _ hmem) (by decide), hnewline.1, by decide, hnewline.2⟩
  · have htrim : Text.trim (front ++ (d ++ ' ' :: rest)) = d ++ ' ' :: rest := by
      refine Text.trim_append (fun x hx => by rw [hfront x hx]; decide) ?_ ?_
      · intro x hx
        rw [List.head?_append_of_ne_nil _ hdne, hd] at hx
        cases hx
        decide
      · intro x hx
        rw [hgetLast] at hx
        cases hx
        exact hcblank
    have hnolabel : (d ++ ' ' :: rest).getLast? ≠ some ':' := by
      rw [hgetLast]
      exact fun heq => hcolon (Option.some.inj heq)
    rw [hcomment, htrim]
    unfold Loader.addLine
    rw [if_neg (by simp), Text.stripSuffix_of_getLast hnolabel, Text.cut_append _ hblank]
    simp only [Option.getD_some, hd, beq_self_eq_true, if_true]
    exact h

/-- A directive with a name and maybe more behind it. -/
theorem loads_named {s s' : Loader} {n : ℕ} {front d tail : List Char} {name : String}
    (hname : IsSymbol name) (hfront : ∀ c ∈ front, c = ' ') (hd : d.head? = some '.')
    (hplain : ∀ c ∈ d, isPlain c = true)
    (htail : ∀ c ∈ tail, isPlain c = true ∨ c = ',' ∨ c = ' ')
    (hlast : ∀ c ∈ tail.getLast?, isPlain c = true)
    (h : s.directive (String.ofList d) (name.toList ++ tail) = .ok s') :
    Loads s n (front ++ (d ++ ' ' :: (name.toList ++ tail)) ++ ['\n']) s' (n + 1) := by
  have hrest : ∀ c ∈ name.toList ++ tail, isPlain c = true ∨ c = ',' ∨ c = ' ' :=
    List.forall_mem_append.mpr ⟨fun c hc => .inl (hname.plain c hc), htail⟩
  have hend : ∃ c, (name.toList ++ tail).getLast? = some c ∧ isPlain c = true := by
    rcases List.eq_nil_or_concat tail with rfl | ⟨init, c, rfl⟩
    · rw [List.append_nil]
      exact ⟨_, List.getLast?_eq_getLast_of_ne_nil hname.isWord.1,
        hname.plain _ (List.getLast_mem hname.isWord.1)⟩
    · refine ⟨c, ?_, hlast c (by simp)⟩
      simp
  obtain ⟨e, he, heplain⟩ := hend
  have htrim : Text.trim (name.toList ++ tail) = name.toList ++ tail := by
    refine Text.trim_of_ends ?_ ?_
    · intro c hc
      rw [List.head?_append_of_ne_nil _ hname.isWord.1] at hc
      exact isBlank_of_isPlain (hname.plain c (List.mem_of_mem_head? hc))
    · intro c hc
      rw [he] at hc
      cases hc
      exact isBlank_of_isPlain heplain
  have hne : ∀ c : Char, isPlain c = true ∨ c = ',' ∨ c = ' ' → c ≠ '/' ∧ c ≠ '#' ∧ c ≠ '\n' := by
    rintro c (hc | rfl | rfl)
    · exact ⟨(ne_comment_of_isPlain hc).1, (ne_comment_of_isPlain hc).2, ne_newline_of_isPlain hc⟩
    · decide
    · decide
  have hall : ∀ c ∈ front ++ (d ++ ' ' :: (name.toList ++ tail)), isPlain c = true ∨ c = ',' ∨
      c = ' ' := by
    refine List.forall_mem_append.mpr ⟨fun c hc => .inr (.inr (hfront c hc)), ?_⟩
    refine List.forall_mem_append.mpr ⟨fun c hc => .inl (hplain c hc), ?_⟩
    exact List.forall_mem_cons.mpr ⟨.inr (.inr rfl), hrest⟩
  rw [← htrim] at h
  refine loads_directive hfront hd ?_ ?_ ⟨?_, ?_⟩ ⟨e, he, ?_, isBlank_of_isPlain heplain⟩ h
  · exact fun hmem => absurd (hplain _ hmem) (by decide)
  · exact withoutComment_of_plain fun c hc => ⟨(hne c (hall c hc)).1, (hne c (hall c hc)).2.1⟩
  · exact fun hmem => (hne _ (.inl (hplain _ hmem))).2.2 rfl
  · exact fun hmem => (hne _ (hrest _ hmem)).2.2 rfl
  · exact ne_of_isPlain heplain (by decide)

/-! ### Data -/

/-- Names at consecutive words of data. -/
def dataPlaces (next : UInt32) : List String → List (String × UInt32)
  | [] => []
  | name :: names => (name, next) :: dataPlaces (next + 4) names

/-- The words of constants at consecutive addresses. -/
def constantWords (next : UInt32) : List GlobalConstant → List (UInt32 × Int32)
  | [] => []
  | c :: cs => (next, Int32.ofInt c.value) :: constantWords (next + 4) cs

/-- The address behind some words of data. -/
def behind (next : UInt32) : ℕ → UInt32
  | 0 => next
  | n + 1 => behind (next + 4) n

/-- A memory with some more words. -/
def withWords (memory : Memory) (words : List (UInt32 × Int32)) : Memory :=
  words.foldl (fun m w => m.insert w.1 w.2) memory

/-- What data adds to a listing: its labels and its words, and nothing else. -/
structure DataExtends (names : List String) (words : List (UInt32 × Int32)) (s s' : Loader) :
    Prop where
  next : s'.next = behind s.next names.length
  dataLabels : s'.listing.dataLabels = (dataPlaces s.next names).reverse ++ s.listing.dataLabels
  memory : s'.listing.memory = withWords s.listing.memory words
  codeLabels : s'.listing.codeLabels = s.listing.codeLabels
  instructions : s'.listing.instructions = s.listing.instructions

theorem dataPlaces_append (names' : List String) : ∀ (names : List String) (next : UInt32),
    dataPlaces next (names ++ names') =
      dataPlaces next names ++ dataPlaces (behind next names.length) names'
  | [], _ => rfl
  | _ :: names, next => congrArg (_ :: ·) (dataPlaces_append names' names (next + 4))

theorem behind_add (n : ℕ) :
    ∀ (m : ℕ) (next : UInt32), behind next (m + n) = behind (behind next m) n
  | 0, next => by rw [Nat.zero_add]; rfl
  | m + 1, next => by
    rw [Nat.succ_add]
    exact behind_add n m (next + 4)

theorem map_fst_dataPlaces : ∀ (names : List String) (next : UInt32),
    (dataPlaces next names).map Prod.fst = names
  | [], _ => rfl
  | name :: names, next => congrArg (name :: ·) (map_fst_dataPlaces names (next + 4))

theorem DataExtends.refl (s : Loader) : DataExtends [] [] s s := ⟨rfl, rfl, rfl, rfl, rfl⟩

theorem DataExtends.trans {names names' : List String} {words words' : List (UInt32 × Int32)}
    {s s' s'' : Loader} (h : DataExtends names words s s') (h' : DataExtends names' words' s' s'') :
    DataExtends (names ++ names') (words ++ words') s s'' := by
  refine ⟨?_, ?_, ?_, h'.codeLabels.trans h.codeLabels, h'.instructions.trans h.instructions⟩
  · rw [h'.next, h.next, List.length_append, behind_add]
  · rw [h'.dataLabels, h.dataLabels, h.next, dataPlaces_append, List.reverse_append,
      List.append_assoc]
  · rw [h'.memory, h.memory, withWords, withWords, withWords, List.foldl_append]

/-- Names that can label data: none is in the listing yet, and none comes twice. -/
structure FreshData (names : List String) (s : Loader) : Prop where
  symbol : ∀ name ∈ names, IsSymbol name
  nodup : names.Nodup
  code : ∀ name ∈ names, s.listing.codeLabels.lookup name = none
  data : ∀ name ∈ names, s.listing.dataLabels.lookup name = none

theorem FreshData.right {names names' : List String} {words : List (UInt32 × Int32)} {s s' : Loader}
    (h : FreshData (names ++ names') s) (hext : DataExtends names words s s') :
    FreshData names' s' := by
  have hmem : ∀ name ∈ names', name ∈ names ++ names' := fun _ => List.mem_append_right _
  refine ⟨fun name hname => h.symbol name (hmem name hname), h.nodup.of_append_right, ?_, ?_⟩
  · intro name hname
    rw [hext.codeLabels]
    exact h.code name (hmem name hname)
  · intro name hname
    rw [hext.dataLabels]
    refine lookup_append_none ?_ (h.data name (hmem name hname))
    rw [List.map_reverse, List.mem_reverse, map_fst_dataPlaces]
    exact fun hmem' => List.disjoint_of_nodup_append h.nodup hmem' hname

theorem FreshData.left {names names' : List String} {s : Loader}
    (h : FreshData (names ++ names') s) :
    FreshData names s := by
  have hmem : ∀ name ∈ names, name ∈ names ++ names' := fun _ => List.mem_append_left _
  exact ⟨fun name hname => h.symbol name (hmem name hname), h.nodup.of_append_left,
    fun name hname => h.code name (hmem name hname), fun name hname =>
    h.data name (hmem name hname)⟩

theorem directive_comm {s : Loader} {name : String} (h : IsSymbol name)
    (hdata : s.listing.dataLabels.lookup name = none) :
    s.directive ".comm" (name.toList ++ [',', ' ', '4', ',', ' ', '4']) = .ok { s with
      listing.dataLabels := (name, s.next) :: s.listing.dataLabels, next := s.next + 4 } := by
  have hfour : IsWord ['4'] := ⟨List.cons_ne_nil _ _, by decide⟩
  have hjoined : name.toList ++ [',', ' ', '4', ',', ' ', '4'] = opChars [] [] ++
      commaSeparated [name.toList, ['4'], ['4']] := by
    simp [opChars, commaSeparated, List.intercalate]
  have hsplit : splitOperands (name.toList ++ [',', ' ', '4', ',', ' ', '4']) =
      [name.toList, ['4'], ['4']] := by
    have hne : (Text.trim (name.toList ++ [',', ' ', '4', ',', ' ', '4'])).isEmpty = false := by
      rw [Text.trim_of_ends]
      · simp
      · intro c hc
        rw [List.head?_append_of_ne_nil _ h.isWord.1] at hc
        exact isBlank_of_isPlain (h.plain c (List.mem_of_mem_head? hc))
      · intro c hc
        simp at hc
        exact hc ▸ by decide
    rw [splitOperands, hne, if_neg Bool.false_ne_true, hjoined]
    exact splitOn_commaSeparated h.isWord (by simp [hfour]) (by decide) (by decide)
  show s.addRoom (splitOperands _) = _
  rw [hsplit]
  have hread : Text.readInt64 ['4'] = some 4 := by decide
  simp only [Loader.addRoom, String.ofList_toList, hread, hdata]
  rfl

theorem loads_global {s : Loader} {n : ℕ} {name : String} (h : FreshData [name] s) :
    ∃ s', Loads s n (GlobalVariable.text { label := name }).toList s' (n + 1) ∧
      DataExtends [name] [] s s' := by
  have hname := h.symbol name List.mem_cons_self
  have hchars : (GlobalVariable.text { label := name }).toList =
      [] ++ (".comm".toList ++ ' ' :: (name.toList ++ [',', ' ', '4', ',', ' ', '4'])) ++
      ['\n'] := by
    have hfour : Text.decimal 4 = "4" := by decide +kernel
    simp [GlobalVariable.text, hfour]
  have hloads :=
    @loads_named s _ n [] ".comm".toList [',', ' ', '4', ',', ' ', '4'] name hname (by simp)
      (by decide) (by decide) (by decide) (by decide)
      (directive_comm hname (h.data name List.mem_cons_self))
  rw [← hchars] at hloads
  exact ⟨_, hloads, rfl, rfl, rfl, rfl, rfl⟩

theorem loads_globals : ∀ {names : List String} {s : Loader}, FreshData names s → ∀ n : ℕ,
    ∃ s' n', Loads s n
      (String.join (names.map fun name => GlobalVariable.text { label := name })).toList s' n' ∧
      DataExtends names [] s s'
  | [], s, _, n => ⟨s, n, Loads.refl s n, DataExtends.refl s⟩
  | name :: names, s, h, n => by
    have hparts : FreshData ([name] ++ names) s := h
    obtain ⟨s', hloads, hext⟩ := @loads_global s n name hparts.left
    obtain ⟨s'', n'', hloads', hext'⟩ := loads_globals (hparts.right hext) (n + 1)
    refine ⟨s'', n'', ?_, hext.trans hext'⟩
    rw [List.map_cons, String.join_cons, String.toList_append]
    exact hloads.trans hloads'

theorem loads_word {s : Loader} {n : ℕ} {v : ℤ} (h : -2 ^ 31 ≤ v ∧ v < 2 ^ 31) :
    Loads s n ([' ', ' ', ' ', ' '] ++ (".word".toList ++ ' ' :: Text.decimalChars v) ++ ['\n'])
      { s with
        listing.memory := s.listing.memory.insert s.next (Int32.ofInt v), next := s.next + 4 }
      (n + 1) := by
  have hword := isWord_decimalChars v
  have hlast : ∀ c ∈ (Text.decimalChars v).getLast?, isPlain c = true :=
    fun c hc => hword.2 c (List.mem_of_mem_getLast? hc)
  have htrim : Text.trim (Text.decimalChars v) = Text.decimalChars v :=
    @IsWord.trim _ [] hword (by simp)
  refine loads_directive (by decide) (by decide) (by decide) ?_
    ⟨by decide, hword.notMem (by decide)⟩ ?_ ?_
  · refine withoutComment_of_plain ?_
    simp only [List.forall_mem_append, List.forall_mem_cons]
    exact ⟨by decide, by decide, by decide, fun c hc => ne_comment_of_isPlain (hword.2 c hc)⟩
  · refine ⟨_, List.getLast?_eq_getLast_of_ne_nil hword.1, ?_, ?_⟩
    · exact ne_of_isPlain (hword.2 _ (List.getLast_mem hword.1)) (by decide)
    · exact isBlank_of_isPlain (hword.2 _ (List.getLast_mem hword.1))
  · have hsplit : splitOperands (Text.decimalChars v) = [Text.decimalChars v] := by
      have hne : (Text.decimalChars v).isEmpty = false := by simpa using hword.1
      rw [splitOperands, htrim, hne, if_neg Bool.false_ne_true,
        Text.splitOn_of_notMem (hword.notMem (by decide)), List.map_singleton, htrim]
    rw [htrim]
    show (splitOperands (Text.decimalChars v)).foldlM Loader.addWord s = _
    rw [hsplit]
    show (s.addWord (Text.decimalChars v) >>= fun s' => pure s') = _
    unfold Loader.addWord
    rw [Text.readLiteral_decimalChars (le_refl 64) (inWord_of_range (by omega) h)]
    rfl

/-- A constant in lines of its own. -/
theorem toList_constantText (c : GlobalConstant) :
    c.text.toList = (".section    .rodata".toList ++ ['\n']) ++
      (("    .align 2".toList ++ ['\n']) ++
      (([' ', ' ', ' ', ' '] ++ (".globl".toList ++ ' ' :: (c.label.toList ++ [])) ++ ['\n']) ++
      (([' ', ' ', ' ', ' '] ++ (".type".toList ++ ' ' :: (c.label.toList ++ ", @object".toList)) ++
        ['\n']) ++
      ((c.label.toList ++ [':'] ++ ['\n']) ++
      ([' ', ' ', ' ', ' '] ++ (".word".toList ++ ' ' :: Text.decimalChars c.value) ++
        ['\n']))))) := by
  have hhead : ".section    .rodata\n    .align 2\n    .globl ".toList =
      (".section    .rodata".toList ++ ['\n']) ++
      (("    .align 2".toList ++ ['\n']) ++
      ([' ', ' ', ' ', ' '] ++ (".globl".toList ++ [' ']))) := by
    decide +kernel
  have htype : "\n    .type ".toList = ['\n'] ++
      ([' ', ' ', ' ', ' '] ++ (".type".toList ++ [' '])) := by
    decide +kernel
  have hobject : ", @object\n".toList = ", @object".toList ++ ['\n'] := by decide +kernel
  have hword : ":\n    .word ".toList = [':'] ++
      (['\n'] ++ ([' ', ' ', ' ', ' '] ++ (".word".toList ++ [' ']))) := by
    decide +kernel
  have hend : "\n".toList = ['\n'] := by decide +kernel
  have htext : c.text = ".section    .rodata\n    .align 2\n    .globl " ++ c.label ++
    "\n    .type " ++
      c.label ++ ", @object\n" ++ c.label ++ ":\n    .word " ++ Text.decimal c.value ++ "\n" := rfl
  simp only [htext, Text.decimal, String.toList_append, String.toList_ofList, hhead, htype, hobject,
    hword, hend]
  generalize ".section    .rodata".toList = section', "    .align 2".toList = align,
    ".globl".toList = globl, ".type".toList = type, ", @object".toList = object, ".word".toList =
    word
  simp only [List.append_assoc, List.cons_append, List.nil_append, List.append_nil]

theorem loads_constant {s : Loader} {n : ℕ} {c : GlobalConstant} (h : FreshData [c.label] s)
    (hc : -2 ^ 31 ≤ c.value ∧ c.value < 2 ^ 31) :
    ∃ s' n', Loads s n c.text.toList s' n' ∧
      DataExtends [c.label] (constantWords s.next [c]) s s' := by
  have hname := h.symbol c.label List.mem_cons_self
  have hcode := h.code c.label List.mem_cons_self
  have hdata := h.data c.label List.mem_cons_self
  have hchars := toList_constantText c
  have hsection : Loads s n (".section    .rodata".toList ++ ['\n']) { s with inText := false }
      (n + 1) :=
    loads_line (by decide) rfl
  have halign : Loads { s with inText := false } (n + 1) ("    .align 2".toList ++ ['\n'])
      { s with inText := false } (n + 2) := loads_line (by decide) rfl
  have hglobl := @loads_named { s with inText := false } { s with inText := false } (n + 2)
    [' ', ' ', ' ', ' '] ".globl".toList [] c.label hname (by decide) (by decide) (by decide)
    (by decide) (by decide) rfl
  have htype := @loads_named { s with inText := false } { s with inText := false } (n + 3)
    [' ', ' ', ' ', ' '] ".type".toList ", @object".toList c.label hname (by decide) (by decide)
    (by decide) (by decide) (by decide) rfl
  have hlabel := @loads_labelLine c.label hname { s with inText := false } hcode hdata (n + 4)
  have hword := @loads_word (labelled { s with inText := false } c.label) (n + 5) c.value hc
  have hloads := hsection.trans (halign.trans (hglobl.trans (htype.trans (hlabel.trans hword))))
  rw [← hchars] at hloads
  exact ⟨_, n + 6, hloads, rfl, rfl, rfl, rfl, rfl⟩

theorem loads_constants :
    ∀ {cs : List GlobalConstant} {s : Loader}, FreshData (cs.map (·.label)) s →
    (∀ c ∈ cs, -2 ^ 31 ≤ c.value ∧ c.value < 2 ^ 31) → ∀ n : ℕ,
    ∃ s' n', Loads s n (String.join (cs.map GlobalConstant.text)).toList s' n' ∧
      DataExtends (cs.map (·.label)) (constantWords s.next cs) s s'
  | [], s, _, _, n => ⟨s, n, Loads.refl s n, DataExtends.refl s⟩
  | c :: cs, s, h, hcs, n => by
    rw [List.forall_mem_cons] at hcs
    have hparts : FreshData ([c.label] ++ cs.map (·.label)) s := h
    obtain ⟨s', n', hloads, hext⟩ := @loads_constant s n c hparts.left hcs.1
    obtain ⟨s'', n'', hloads', hext'⟩ := loads_constants (hparts.right hext) hcs.2 n'
    have hnext : s'.next = s.next + 4 := hext.next
    rw [hnext] at hext'
    refine ⟨s'', n'', ?_, hext.trans hext'⟩
    rw [List.map_cons, String.join_cons, String.toList_append]
    exact hloads.trans hloads'

/-! ### Functions -/

/-- The lines of a function with its name in front. -/
def Function.codeLines (f : Function) : List Line := .label f.name :: f.lines

/-- The directives in front of a function. -/
theorem loads_header {s : Loader} {n : ℕ} {f : Function} (hname : IsSymbol f.name) :
    ∃ n', Loads s n ((".section    .text\n    .align 2\n" ++
      (if f.isGlobal then "    .globl " ++ f.name ++ "\n" else "")).toList ++
      ("    .type " ++ f.name ++ ", @function\n").toList) { s with inText := true } n' := by
  have hsection : Loads s n (".section    .text".toList ++ ['\n']) { s with inText := true }
      (n + 1) :=
    loads_line (by decide) rfl
  have halign : Loads { s with inText := true } (n + 1) ("    .align 2".toList ++ ['\n'])
      { s with inText := true } (n + 2) := loads_line (by decide) rfl
  have hopen : ".section    .text\n    .align 2\n".toList =
      (".section    .text".toList ++ ['\n']) ++ ("    .align 2".toList ++ ['\n']) := by
    decide +kernel
  have hglobl : ∀ n : ℕ, ∃ n', Loads { s with inText := true } n
      (if f.isGlobal then "    .globl " ++ f.name ++ "\n" else "").toList { s with inText := true }
      n' := by
    intro n
    split
    · have hchars : ("    .globl " ++ f.name ++ "\n").toList =
          [' ', ' ', ' ', ' '] ++ (".globl".toList ++ ' ' :: (f.name.toList ++ [])) ++ ['\n'] := by
        simp
      rw [hchars]
      exact ⟨n + 1, loads_named hname (by decide) (by decide) (by decide) (by decide) (by decide)
        rfl⟩
    · exact ⟨n, Loads.refl _ n⟩
  obtain ⟨n', hglobl⟩ := hglobl (n + 2)
  have htype : Loads { s with inText := true } n' ("    .type " ++ f.name ++ ", @function\n").toList
      { s with inText := true } (n' + 1) := by
    have hchars : ("    .type " ++ f.name ++ ", @function\n").toList = [' ', ' ', ' ', ' '] ++
        (".type".toList ++ ' ' :: (f.name.toList ++ ", @function".toList)) ++ ['\n'] := by simp
    rw [hchars]
    exact loads_named hname (by decide) (by decide) (by decide) (by decide) (by decide) rfl
  refine ⟨n' + 1, ?_⟩
  rw [String.toList_append, hopen]
  exact ((hsection.trans halign).trans hglobl).trans htype

theorem loads_function {s : Loader} {f : Function} (h : ∀ l ∈ f.codeLines, Loadable l)
    (hfresh : Fresh f.codeLines s) (n : ℕ) :
    ∃ t s' n', f.text? = some t ∧ Loads s n t.toList s' n' ∧
      Extends f.codeLines { s with inText := true } s' := by
  have hname : IsSymbol f.name := by
    cases h _ List.mem_cons_self with
    | label h => exact h
  obtain ⟨n', hheader⟩ := @loads_header s n f hname
  have hfresh' : Fresh f.codeLines { s with inText := true } :=
    ⟨hfresh.nodup, hfresh.code, hfresh.data⟩
  obtain ⟨ts, s', n'', hts, hloads, hext⟩ := loads_lines h rfl hfresh' n'
  obtain ⟨t, ts', rfl, ht, hts'⟩ : ∃ t ts', ts = t :: ts' ∧ (Line.label f.name).text? = some t ∧
      f.lines.mapM Line.text? = some ts' := by
    simp only [Function.codeLines, List.mapM_cons, Option.bind_eq_bind,
      Option.bind_eq_some_iff] at hts
    obtain ⟨t, ht, ts', hts', hpure⟩ := hts
    exact ⟨t, ts', (Option.some.inj hpure).symm, ht, hts'⟩
  have hlabel : f.name ++ ":\n" = t := by
    have hone : (Line.label f.name).text? = some (f.name ++ ":" ++ "" ++ "\n") := rfl
    rw [hone, Option.some.injEq] at ht
    rw [← ht, String.append_assoc, String.append_assoc]
    rfl
  refine ⟨".section    .text\n    .align 2\n" ++
    (if f.isGlobal then "    .globl " ++ f.name ++ "\n" else "") ++ "    .type " ++ f.name ++
    ", @function\n" ++ f.name ++ ":\n" ++ String.join ts', s', n'', ?_, ?_, hext⟩
  · simp only [Function.text?, hts']
    rfl
  · have hall := hheader.trans hloads
    have hchars : ∀ header type name kind colon code : String,
        (header ++ type ++ name ++ kind ++ name ++ colon ++ code).toList =
          (header.toList ++ (type ++ name ++ kind).toList) ++ ((name ++ colon) ++ code).toList := by
      intros
      simp only [String.toList_append, List.append_assoc]
    rw [String.join_cons, ← hlabel] at hall
    rw [hchars]
    exact hall

theorem loads_functions : ∀ {fs : List Function} {s : Loader},
    (∀ l ∈ fs.flatMap Function.codeLines, Loadable l) → Fresh (fs.flatMap Function.codeLines) s →
    ∀ n : ℕ,
    ∃ ts s' n', fs.mapM Function.text? = some ts ∧ Loads s n (String.join ts).toList s' n' ∧
      (∃ inText, Extends (fs.flatMap Function.codeLines) { s with inText } s')
  | [], s, _, _, n => ⟨[], s, n, rfl, Loads.refl s n, s.inText, Extends.refl s⟩
  | f :: fs, s, h, hfresh, n => by
    rw [List.flatMap_cons, List.forall_mem_append] at h
    rw [List.flatMap_cons] at hfresh
    obtain ⟨t, s', n', ht, hloads, hext⟩ := loads_function h.1 hfresh.left n
    have hfresh' : Fresh (f.codeLines ++ fs.flatMap Function.codeLines) { s with inText := true } :=
      ⟨hfresh.nodup, hfresh.code, hfresh.data⟩
    obtain ⟨ts, s'', n'', hts, hloads', inText, hext'⟩ :=
      loads_functions h.2 (hfresh'.right hext) n'
    refine ⟨t :: ts, s'', n'', by simp [List.mapM_cons, ht, hts], ?_, inText, ?_⟩
    · rw [String.join_cons, String.toList_append]
      exact hloads.trans hloads'
    · rw [List.flatMap_cons]
      have hsame : Extends f.codeLines { s with inText } { s' with inText } :=
        ⟨rfl, hext.next, hext.dataLabels, hext.memory, hext.codeLabels, hext.instructions⟩
      exact hsame.trans hext'

/-! ### Programs -/

/-- All lines of code of a program, with the names of the functions as labels. -/
def Program.codeLines (p : Program) : List Line := p.functions.flatMap Function.codeLines

/-- The names of the data of a program, in order. -/
def Program.dataNames (p : Program) : List String :=
  p.globals.map (·.label) ++ p.constants.map (·.label)

/-- Where data begins. -/
def dataBase : UInt32 := 0x00100000

/-- A listing holds what a program holds: the instructions of its lines, the labels of its code,
each with the number of the instruction behind it, and its data at consecutive words. -/
structure Reflects (p : Program) (code : Listing) : Prop where
  instructions : List.Forall₂ Reads code.instructions.toList (opsOf p.codeLines)
  codeLabels : code.codeLabels.reverse = placesOf 0 p.codeLines
  dataLabels : code.dataLabels.reverse = dataPlaces dataBase p.dataNames
  memory : code.memory = withWords {} (constantWords (behind dataBase p.globals.length) p.constants)

/-- A program that is read back. -/
structure Printable (p : Program) : Prop where
  file : Uncommented p.file.toList
  globals : ∀ g ∈ p.globals, g.size = 4 ∧ g.align = 4
  constants : ∀ c ∈ p.constants, -2 ^ 31 ≤ c.value ∧ c.value < 2 ^ 31
  data : ∀ name ∈ p.dataNames, IsSymbol name
  code : ∀ l ∈ p.codeLines, Loadable l
  nodup : (p.dataNames ++ labelsOf p.codeLines).Nodup

theorem loads_file {s : Loader} {n : ℕ} {file : String} (h : Uncommented file.toList) :
    Loads s n ("    .file \"" ++ Text.escapeText file ++ "\"\n    .option nopic\n").toList s
      (n + 2) := by
  have hfile : Loads s n ([' ', ' ', ' ', ' '] ++ (".file".toList ++ ' ' ::
      ('"' :: (file.toList.flatMap escapeChar ++ ['"']))) ++ ['\n']) s (n + 1) := by
    refine loads_directive (by decide) (by decide) (by decide) ?_ ⟨by decide, ?_⟩ ?_ rfl
    · have hfront : ∀ c ∈ [' ', ' ', ' ', ' '] ++ (".file".toList ++ [' ', '"']), c ≠ '/' ∧
        c ≠ '#' := by decide
      have hcut := withoutComment_append (file.toList.flatMap escapeChar ++ ['"']) hfront
      rw [withoutComment_escape h] at hcut
      simpa using hcut
    · simp only [List.mem_cons, List.mem_append, List.mem_flatMap, List.not_mem_nil, or_false,
        not_or, not_exists, not_and]
      exact ⟨by decide, fun c _ hc => (mem_escapeChar hc).1 rfl, by decide⟩
    · exact ⟨'"', by rw [← List.cons_append, List.getLast?_concat], by decide, by decide⟩
  have hoption : Loads s (n + 1) ("    .option nopic".toList ++ ['\n']) s (n + 2) :=
    loads_line (by decide) rfl
  have hchars : ("    .file \"" ++ Text.escapeText file ++ "\"\n    .option nopic\n").toList =
      ([' ', ' ', ' ', ' '] ++
        (".file".toList ++ ' ' :: ('"' :: (file.toList.flatMap escapeChar ++ ['"']))) ++
        ['\n']) ++ ("    .option nopic".toList ++ ['\n']) := by
    simp [escapeText_eq]
  rw [hchars]
  exact hfile.trans hoption

/-- **A program is read back**: its text gives a listing that holds what the program holds. -/
theorem Printable.parse {p : Program} (h : Printable p) :
    ∃ text code, p.text? = some text ∧ Listing.parse text = .ok code ∧ Reflects p code := by
  have hfile : Loads {} 1 _ {} 3 := loads_file h.file
  have hnodup := h.nodup
  have hdata : FreshData (p.globals.map (·.label) ++ p.constants.map (·.label)) ({} : Loader) :=
    ⟨h.data, hnodup.of_append_left, fun _ _ => rfl, fun _ _ => rfl⟩
  obtain ⟨s, n, hglobals, hext⟩ := loads_globals hdata.left 3
  obtain ⟨s', n', hconstants, hext'⟩ := loads_constants (hdata.right hext) h.constants n
  have hboth := hext.trans hext'
  have hfresh : Fresh p.codeLines s' := by
    refine ⟨hnodup.of_append_right, fun name _ => ?_, fun name hname => ?_⟩
    · rw [hboth.codeLabels]
      rfl
    · rw [hboth.dataLabels]
      refine lookup_append_none ?_ rfl
      rw [List.map_reverse, List.mem_reverse, map_fst_dataPlaces]
      exact fun hmem => List.disjoint_of_nodup_append hnodup hmem hname
  obtain ⟨ts, s'', n'', hts, hfunctions, inText, hcode⟩ := loads_functions h.code hfresh n'
  have hglobalTexts : p.globals.map GlobalVariable.text =
      (p.globals.map (·.label)).map fun name => GlobalVariable.text { label := name } := by
    rw [List.map_map]
    refine List.map_congr_left fun g hg => ?_
    obtain ⟨label, size, align⟩ := g
    obtain ⟨hsize, halign⟩ := h.globals _ hg
    obtain rfl : size = 4 := hsize
    obtain rfl : align = 4 := halign
    rfl
  refine ⟨"    .file \"" ++ Text.escapeText p.file ++ "\"\n    .option nopic\n" ++
    String.join (p.globals.map GlobalVariable.text) ++
    String.join (p.constants.map GlobalConstant.text) ++ String.join ts, s''.listing, ?_, ?_, ?_⟩
  · simp only [Program.text?, hts]
    rfl
  · refine Loads.parse (n := n'') ?_
    have hall := ((hfile.trans hglobals).trans hconstants).trans hfunctions
    rw [← hglobalTexts] at hall
    simp only [String.toList_append] at hall ⊢
    exact hall
  · obtain ⟨is, his, hreads⟩ := hcode.instructions
    have hnone : s'.listing.instructions.toList = [] := by rw [hboth.instructions]
    have hsize : s'.listing.instructions.size = 0 := by rw [hboth.instructions]; rfl
    refine ⟨?_, ?_, ?_, ?_⟩
    · rw [his]
      show List.Forall₂ Reads (s'.listing.instructions.toList ++ is) _
      rw [hnone]
      exact hreads
    · rw [hcode.codeLabels]
      show ((placesOf s'.listing.instructions.size _).reverse ++ s'.listing.codeLabels).reverse = _
      rw [hsize, hboth.codeLabels]
      simp only [List.append_nil, List.reverse_reverse]
      rfl
    · rw [hcode.dataLabels]
      show s'.listing.dataLabels.reverse = _
      rw [hboth.dataLabels]
      simp only [List.append_nil, List.reverse_reverse]
      rfl
    · rw [hcode.memory]
      show s'.listing.memory = _
      rw [hboth.memory, hext.next, List.length_map]
      rfl

end RvBackend.Asm
