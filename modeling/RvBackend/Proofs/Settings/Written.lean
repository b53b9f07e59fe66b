import RvBackend.Proofs.Settings.Document

/-! # Lines of a settings file

The reader takes each line of a document for what it is: the text of a value is read as that value,
a line with a key as that key with its value, and the line of a header as the header. -/

namespace RvBackend.Settings

open Toml (Value Expression)

/-! ### Texts in quotes -/

theorem isPlain_eq_true {c : Char} (h : IsPlain c) : Toml.isPlain c = true := by
  simpa [Toml.isPlain, IsPlain] using h

theorem hexChar?_eq {ds : List Char} {c : Char} (h : Text.readDigits 16 0 ds = some c.toNat) :
    Toml.hexChar? ds = some c := by
  have hvalid : c.toNat.isValidChar := c.valid
  rw [Toml.hexChar?, h, Option.bind_some, Toml.scalar?, if_pos hvalid, Char.ofNat_toNat]

/-- What stands between double quotes is read as the characters that it stands for. -/
theorem scanBasic_body {body cs : List Char} (h : BasicBody body cs) (acc rest : List Char) :
    Toml.scanBasic acc (body ++ '"' :: rest) = some (String.ofList (acc.reverse ++ cs), rest) := by
  induction h generalizing acc with
  | nil => rw [List.nil_append, Toml.scanBasic, List.append_nil]
  | @plain c body cs hc hquote hbackslash _ ih =>
    have hscan : Toml.scanBasic acc (c :: (body ++ '"' :: rest)) =
        Toml.scanBasic (c :: acc) (body ++ '"' :: rest) := by
      rw [Toml.scanBasic, if_pos (isPlain_eq_true hc)]
      · exact hquote
      · exact hbackslash
    rw [List.cons_append, hscan, ih]
    simp
  | @escape e c body cs he _ ih =>
    have hscan : Toml.scanBasic acc ('\\' :: e :: (body ++ '"' :: rest)) =
        Toml.scanBasic (c :: acc) (body ++ '"' :: rest) := by
      simp only [escapes, List.mem_cons, Prod.mk.injEq, List.not_mem_nil, or_false] at he
      obtain ⟨rfl, rfl⟩ | ⟨rfl, rfl⟩ | ⟨rfl, rfl⟩ | ⟨rfl, rfl⟩ | ⟨rfl, rfl⟩ | ⟨rfl, rfl⟩ |
        ⟨rfl, rfl⟩ := he
      all_goals rfl
    rw [List.cons_append, List.cons_append, hscan, ih]
    simp
  | @unicode u c ds body cs hlength hdigits _ ih =>
    have hhex := hexChar?_eq hdigits
    have hscan : Toml.scanBasic acc ('\\' :: u :: (ds ++ (body ++ '"' :: rest))) =
        (Toml.hexChar? ds).bind fun x => Toml.scanBasic (x :: acc) (body ++ '"' :: rest) := by
      obtain ⟨rfl, hlength⟩ | ⟨rfl, hlength⟩ := hlength
      · obtain ⟨d₁, d₂, d₃, d₄, rfl⟩ := List.length_eq_four.mp hlength
        rfl
      · obtain ⟨d₁, ds, rfl⟩ := List.exists_cons_of_length_eq_add_one hlength
        obtain ⟨d₂, ds, rfl⟩ := List.exists_cons_of_length_eq_add_one (Nat.succ.inj hlength)
        obtain ⟨d₃, ds, rfl⟩ := List.exists_cons_of_length_eq_add_one
          (Nat.succ.inj (Nat.succ.inj hlength))
        obtain ⟨d₄, ds, rfl⟩ := List.exists_cons_of_length_eq_add_one
          (Nat.succ.inj (Nat.succ.inj (Nat.succ.inj hlength)))
        obtain ⟨d₅, d₆, d₇, d₈, rfl⟩ := List.length_eq_four.mp
          (Nat.succ.inj (Nat.succ.inj (Nat.succ.inj (Nat.succ.inj hlength))))
        rfl
    rw [List.cons_append, List.cons_append, List.append_assoc, hscan, hhex, Option.bind_some, ih]
    simp

theorem scanLiteral_append {s : List Char} (hs : ∀ c ∈ s, IsPlain c ∧ c ≠ '\'')
    (acc rest : List Char) :
    Toml.scanLiteral acc (s ++ '\'' :: rest) = some (String.ofList (acc.reverse ++ s), rest) := by
  induction s generalizing acc with
  | nil => rw [List.nil_append, Toml.scanLiteral, List.append_nil]
  | cons c s ih =>
    obtain ⟨⟨hplain, hquote⟩, hs⟩ := List.forall_mem_cons.mp hs
    have hscan : Toml.scanLiteral acc (c :: (s ++ '\'' :: rest)) =
        Toml.scanLiteral (c :: acc) (s ++ '\'' :: rest) := by
      rw [Toml.scanLiteral, if_pos (isPlain_eq_true hplain)]
      exact hquote
    rw [List.cons_append, hscan, ih hs]
    simp

/-- What may follow a value: the end of the line, or more of a list. -/
def Ends (rest : List Char) : Prop := ∃ c more, rest = c :: more ∧ (c = '\n' ∨ c = ',' ∨ c = ']')

theorem Ends.head_ne {rest : List Char} (h : Ends rest) {q : Char} (hq : q = '"' ∨ q = '\'')
    (cs : List Char) : rest ≠ q :: cs := by
  obtain ⟨c, more, rfl, hc⟩ := h
  intro heq
  obtain rfl := (List.cons.inj heq).1
  rcases hq with rfl | rfl
  · revert hc
    decide
  · revert hc
    decide

/-- A double quote inside of double quotes is not the first character. -/
theorem basicBody_ne_quote {body cs : List Char} (h : BasicBody body cs) (rest : List Char) :
    body ≠ '"' :: rest := by
  rintro rfl
  cases h with
  | plain _ hquote _ _ => exact hquote rfl

/-- A text is read back from its quotes. -/
theorem scanQuoted_quoted {cs : List Char} {s : String} (h : Quoted cs s) {rest : List Char}
    (hrest : Ends rest) : Toml.scanQuoted (cs ++ rest) = some (s, rest) := by
  cases h with
  | literal hs =>
    have hscan := scanLiteral_append hs [] rest
    rw [List.cons_append, List.append_assoc, List.singleton_append, Toml.scanQuoted, hscan]
    · simp
    · -- three quotes would begin a text of another kind
      intro cs heq
      cases hchars : s.toList with
      | nil =>
        rw [hchars, List.nil_append] at heq
        exact hrest.head_ne (.inr rfl) cs (List.cons.inj heq).2
      | cons c more =>
        rw [hchars, List.cons_append] at heq
        obtain rfl := (List.cons.inj heq).1
        exact (hs '\'' (by rw [hchars]; exact List.mem_cons_self)).2 rfl
  | @basic body _ hbody =>
    have hscan := scanBasic_body hbody [] rest
    rw [List.cons_append, List.append_assoc, List.singleton_append, Toml.scanQuoted, hscan]
    · simp
    · intro cs heq
      cases body with
      | nil => exact hrest.head_ne (.inl rfl) cs (List.cons.inj heq).2
      | cons c more =>
        rw [List.cons_append] at heq
        obtain rfl := (List.cons.inj heq).1
        exact basicBody_ne_quote hbody more rfl

theorem exists_quote {cs : List Char} {s : String} (h : Quoted cs s) :
    ∃ q ds, cs = q :: ds ∧ (q = '"' ∨ q = '\'') := by
  cases h with
  | literal _ => exact ⟨_, _, rfl, .inr rfl⟩
  | basic _ => exact ⟨_, _, rfl, .inl rfl⟩

/-! ### Values -/

theorem scanValue_quoted {cs : List Char} {s : String} (h : Quoted cs s) {fuel : ℕ}
    (hfuel : 0 < fuel) {rest : List Char} (hrest : Ends rest) :
    Toml.scanValue fuel (cs ++ rest) = some (.text s, rest) := by
  obtain ⟨fuel, rfl⟩ := Nat.exists_eq_add_one.mpr hfuel
  have hscan := scanQuoted_quoted h hrest
  obtain ⟨q, ds, rfl, hq⟩ := exists_quote h
  rw [List.cons_append] at hscan ⊢
  rcases hq with rfl | rfl
  · rw [Toml.scanValue, hscan]
    rfl
  · rw [Toml.scanValue, hscan]
    rfl

/-- The items behind the first one, and the end of the list. -/
def moreItems : List (List Char) → List Char
  | [] => [']']
  | item :: items => ',' :: ' ' :: (item ++ moreItems items)

/-- The items of a list behind its opening bracket. -/
def listItems : List (List Char) → List Char
  | [] => [']']
  | item :: items => item ++ moreItems items

theorem joinWith_append_bracket (items : List (List Char)) :
    Text.joinWith [',', ' '] items ++ [']'] = listItems items := by
  induction items with
  | nil => rfl
  | cons item items ih =>
    cases items with
    | nil => rfl
    | cons item' items =>
      rw [Text.joinWith, List.append_assoc, ih, listItems, listItems, moreItems]
      · simp
      · exact List.cons_ne_nil _ _

theorem ends_moreItems (items : List (List Char)) (rest : List Char) :
    Ends (moreItems items ++ rest) := by
  cases items with
  | nil => exact ⟨_, _, rfl, .inr (.inr rfl)⟩
  | cons item items => exact ⟨_, _, rfl, .inr (.inl rfl)⟩

/-- An item is a text in quotes; the first one follows the bracket, each other one a comma and a
blank. -/
theorem scanItems_quote {q : Char} (hq : q = '"' ∨ q = '\'') (fuel : ℕ) (acc : List Value)
    (cs : List Char) :
    Toml.scanItems (fuel + 1) acc (if acc.isEmpty then q :: cs else ',' :: ' ' :: q :: cs) =
      (Toml.scanValue fuel (q :: cs)).bind fun (v, rest) =>
        Toml.scanItems fuel (v :: acc) rest := by
  cases acc with
  | nil => rcases hq with rfl | rfl <;> rfl
  | cons v acc => rcases hq with rfl | rfl <;> rfl

theorem scanItems_quoted {item : List Char} {s : String} (h : Quoted item s) {fuel : ℕ}
    {acc : List Value} {cs : List Char} (hfuel : 0 < fuel) (hcs : Ends cs) :
    Toml.scanItems (fuel + 1) acc (if acc.isEmpty then item ++ cs else ',' :: ' ' :: (item ++ cs)) =
      Toml.scanItems fuel (.text s :: acc) cs := by
  have hvalue := scanValue_quoted h hfuel hcs
  obtain ⟨q, ds, rfl, hq⟩ := exists_quote h
  rw [List.cons_append] at hvalue ⊢
  rw [scanItems_quote hq, hvalue]
  rfl

theorem scanItems_moreItems {items : List (List Char)} {ss : List String}
    (h : List.Forall₂ Quoted items ss) (rest : List Char) {fuel : ℕ} {acc : List Value}
    (hacc : acc ≠ []) (hfuel : items.length < fuel) :
    Toml.scanItems fuel acc (moreItems items ++ rest) =
      some (.array (acc.reverse ++ ss.map .text), rest) := by
  induction h generalizing fuel acc with
  | nil =>
    obtain ⟨fuel, rfl⟩ := Nat.exists_eq_add_one.mpr hfuel
    rw [Toml.scanItems, List.map_nil, List.append_nil]
    rfl
  | @cons item s items ss hitem _ ih =>
    obtain ⟨fuel, rfl⟩ : ∃ n, fuel = n + 1 := Nat.exists_eq_add_one.mpr (by omega)
    have hlength : items.length < fuel := by simpa using hfuel
    have hstep := @scanItems_quoted item s hitem fuel acc _ (by omega) (ends_moreItems items rest)
    rw [if_neg (by simpa using hacc)] at hstep
    rw [moreItems, List.cons_append, List.cons_append, List.append_assoc, hstep,
      ih (List.cons_ne_nil _ _) hlength]
    simp

/-- A list of texts is read back. -/
theorem scanValue_listItems {items : List (List Char)} {ss : List String}
    (h : List.Forall₂ Quoted items ss) {fuel : ℕ} (hfuel : items.length + 1 < fuel)
    (rest : List Char) : Toml.scanValue fuel ('[' :: (listItems items ++ rest)) =
      some (.array (ss.map .text), rest) := by
  obtain ⟨fuel, rfl⟩ : ∃ n, fuel = n + 1 := Nat.exists_eq_add_one.mpr (by omega)
  obtain ⟨fuel, rfl⟩ : ∃ n, fuel = n + 1 := Nat.exists_eq_add_one.mpr (by omega)
  rw [Toml.scanValue]
  cases h with
  | nil =>
    rw [Toml.scanItems]
    rfl
  | @cons item s items ss hitem hitems =>
    have hlength : items.length < fuel := by simpa using hfuel
    have hstep := @scanItems_quoted item s hitem fuel [] _ (by omega) (ends_moreItems items rest)
    rw [List.isEmpty_nil, if_pos rfl] at hstep
    rw [listItems, List.append_assoc, hstep,
      scanItems_moreItems hitems rest (List.cons_ne_nil _ _) hlength]
    rfl

theorem length_le_moreItems (items : List (List Char)) :
    items.length < (moreItems items).length := by
  induction items with
  | nil => exact Nat.zero_lt_one
  | cons item items ih =>
    rw [moreItems]
    simp
    omega

theorem length_le_listItems (items : List (List Char)) :
    items.length ≤ (listItems items).length := by
  cases items with
  | nil => exact Nat.zero_le _
  | cons item items =>
    have hmore := length_le_moreItems items
    rw [listItems]
    simp
    omega

/-- Digits with or without a sign make an integer. -/
theorem scanDecimal_decimalChars (n : ℤ) (rest : List Char) :
    Toml.scanDecimal (Text.decimalChars n ++ '\n' :: rest) =
      some (.integer (Text.decimalChars n), '\n' :: rest) := by
  have hnumber : ∀ c ∈ Text.decimalChars n, Toml.isNumberChar c = true := by
    have hall : ∀ c ∈ ['-', '0', '1', '2', '3', '4', '5', '6', '7', '8', '9'],
        Toml.isNumberChar c = true := by decide
    exact fun c hc => hall c (Text.mem_decimalChars hc)
  have hinteger : (Text.decimalChars n).any (fun c => c = '.' || c = 'e' || c = 'E') = false := by
    have hall : ∀ c ∈ ['-', '0', '1', '2', '3', '4', '5', '6', '7', '8', '9'],
        ¬ (c = '.' || c = 'e' || c = 'E') = true := by decide
    exact List.any_eq_false.mpr fun c hc => hall c (Text.mem_decimalChars hc)
  rw [Toml.scanDecimal, Text.span_append hnumber (by simp [Toml.isNumberChar])]
  obtain ⟨d, ds, hds⟩ := List.exists_cons_of_ne_nil (Text.decimalChars_ne_nil n)
  rw [hds] at hinteger ⊢
  simp [hinteger]

theorem beginsDate_decimalChars (n : ℤ) (rest : List Char) :
    Toml.beginsDate (Text.decimalChars n ++ '\n' :: rest) = false := by
  cases n with
  | ofNat n =>
    rw [Toml.beginsDate, Text.decimalChars,
      Text.span_append (fun c hc => Text.isDigit_of_mem_digitsOf hc) (by simp)]
    simp
  | negSucc n =>
    have hspan : (Text.decimalChars (.negSucc n) ++ '\n' :: rest).span Char.isDigit =
        ([], Text.decimalChars (.negSucc n) ++ '\n' :: rest) :=
      @Text.span_append Char.isDigit [] _ (fun c hc => absurd hc List.not_mem_nil)
        (by simp)
    rw [Toml.beginsDate, hspan]
    rfl

/-- Only zero begins with a zero. -/
theorem head?_decimalChars {n : ℤ} (hn : n ≠ 0) : (Text.decimalChars n).head? ≠ some '0' := by
  cases n with
  | ofNat n => exact Text.head?_digitsOf fun h => hn (by rw [h]; rfl)
  | negSucc n => nofun

theorem scanNumber_decimalChars (n : ℤ) (rest : List Char) :
    Toml.scanNumber (Text.decimalChars n ++ '\n' :: rest) =
      some (.integer (Text.decimalChars n), '\n' :: rest) := by
  by_cases hn : n = 0
  · subst hn
    have hzero : Text.decimalChars 0 = ['0'] := by
      show Text.digitsOf 10 0 = _
      rw [Text.digitsOf]
      rfl
    rw [hzero]
    cases rest <;> rfl
  · have hhead := head?_decimalChars hn
    have hscan := scanDecimal_decimalChars n rest
    obtain ⟨d, ds, hds⟩ := List.exists_cons_of_ne_nil (Text.decimalChars_ne_nil n)
    rw [hds, List.cons_append] at hscan ⊢
    rw [Toml.scanNumber]
    · exact hscan
    · intro x c more heq
      rw [hds, (List.cons.inj heq).1] at hhead
      exact hhead rfl

/-- A number is read back. -/
theorem scanValue_decimalChars (n : ℤ) {fuel : ℕ} (hfuel : 0 < fuel) (rest : List Char) :
    Toml.scanValue fuel (Text.decimalChars n ++ '\n' :: rest) =
      some (.integer (Text.decimalChars n), '\n' :: rest) := by
  obtain ⟨fuel, rfl⟩ := Nat.exists_eq_add_one.mpr hfuel
  have hnumber : Toml.scanNumberOrDate (Text.decimalChars n ++ '\n' :: rest) =
      some (.integer (Text.decimalChars n), '\n' :: rest) := by
    rw [Toml.scanNumberOrDate, beginsDate_decimalChars]
    exact scanNumber_decimalChars n rest
  obtain ⟨d, ds, hds⟩ := List.exists_cons_of_ne_nil (Text.decimalChars_ne_nil n)
  have hd : d ∈ ['-', '0', '1', '2', '3', '4', '5', '6', '7', '8', '9'] :=
    Text.mem_decimalChars (n := n) (by rw [hds]; exact List.mem_cons_self)
  rw [hds, List.cons_append] at hnumber ⊢
  rw [Toml.scanValue]
  · exact hnumber
  all_goals
    intro cs heq
    rw [(List.cons.inj heq).1] at hd
    exact absurd hd (by decide)

/-! ### Lines -/

/-- The text is read as the value at the end of a line. -/
def ReadsAs (cs : List Char) (v : Value) : Prop :=
  (∃ d ds, cs = d :: ds ∧ Toml.isSpace d = false) ∧
    ∀ fuel rest, cs.length + 1 < fuel →
      Toml.scanValue fuel (cs ++ '\n' :: rest) = some (v, '\n' :: rest)

/-- A value as the reader gives it. -/
def Content.value : Content → Value
  | .number n => .integer (Text.decimalChars n.toInt)
  | .text s => .text s
  | .texts ss => .array (ss.map .text)

/-- **What a text denotes is what is read.** -/
theorem readsAs_of_denotes {cs : List Char} {v : Content} (h : Denotes cs v) :
    ReadsAs cs v.value := by
  cases h with
  | number n =>
    refine ⟨?_, fun fuel rest hfuel => scanValue_decimalChars _ (by omega) rest⟩
    obtain ⟨d, ds, hds⟩ := List.exists_cons_of_ne_nil (Text.decimalChars_ne_nil n.toInt)
    have hall : ∀ c ∈ ['-', '0', '1', '2', '3', '4', '5', '6', '7', '8', '9'],
        Toml.isSpace c = false := by decide
    exact ⟨d, ds, hds, hall d (Text.mem_decimalChars (by rw [hds]; exact List.mem_cons_self))⟩
  | text h =>
    refine ⟨?_, fun fuel rest hfuel => scanValue_quoted h (by omega) ⟨_, _, rfl, .inl rfl⟩⟩
    obtain ⟨q, ds, rfl, hq⟩ := exists_quote h
    exact ⟨q, ds, rfl, by rcases hq with rfl | rfl <;> rfl⟩
  | @texts items ss h =>
    rw [joinWith_append_bracket]
    have hlength := length_le_listItems items
    refine ⟨⟨_, _, rfl, rfl⟩, fun fuel rest hfuel => scanValue_listItems h ?_ _⟩
    rw [List.length_cons] at hfuel
    omega

/-- A key that needs no quotes. -/
def IsBareKey (key : String) : Prop := key ≠ "" ∧ ∀ c ∈ key.toList, Toml.isBare c = true

theorem isBareKey_key (f : Field) : IsBareKey f.key := by
  unfold IsBareKey
  cases f <;> decide

theorem isBareKey_groupName (g : SettingGroup) : IsBareKey (groupName g) := by
  unfold IsBareKey
  cases g <;> decide

theorem ne_of_isBare {k d : Char} (hk : Toml.isBare k = true) (hd : Toml.isBare d = false) :
    k ≠ d := by
  rintro rfl
  rw [hk] at hd
  cases hd

theorem isSpace_of_isBare {k : Char} (hk : Toml.isBare k = true) : Toml.isSpace k = false := by
  simp [Toml.isSpace, ne_of_isBare (d := ' ') hk (by decide),
    ne_of_isBare (d := '\t') hk (by decide)]

theorem exists_bare {key : String} (hkey : IsBareKey key) :
    ∃ k ks, key.toList = k :: ks ∧ Toml.isBare k = true := by
  obtain ⟨k, ks, hks⟩ := List.exists_cons_of_ne_nil (show key.toList ≠ [] by simpa using hkey.1)
  exact ⟨k, ks, hks, hkey.2 k (by rw [hks]; exact List.mem_cons_self)⟩

theorem scanKeyPart_bare {key : String} (hkey : IsBareKey key) {rest : List Char}
    (hrest : ∀ c ∈ rest.head?, Toml.isBare c = false) :
    Toml.scanKeyPart (key.toList ++ rest) = some (⟨key, false⟩, rest) := by
  have hspan := Text.span_append hkey.2 hrest
  obtain ⟨k, ks, hks, hk⟩ := exists_bare hkey
  have hname : key = String.ofList (k :: ks) := by rw [← hks, String.ofList_toList]
  rw [hks, List.cons_append] at hspan ⊢
  rw [Toml.scanKeyPart, hspan, hname]
  all_goals exact fun _ heq => absurd (List.cons.inj heq).1 (ne_of_isBare hk (by decide))

/-- A key ends at a character that cannot stand in it, and no dot follows. -/
theorem scanKey_bare {key : String} (hkey : IsBareKey key) {rest : List Char}
    (hrest : ∀ c ∈ rest.head?, Toml.isBare c = false)
    (hdot : ∀ cs, Toml.skipSpace rest ≠ '.' :: cs) :
    Toml.scanKey (key.toList ++ rest) = some ([⟨key, false⟩], Toml.skipSpace rest) := by
  rw [Toml.scanKey, scanKeyPart_bare hkey hrest]
  show Toml.scanKeyRest (rest.length + 1) [⟨key, false⟩] rest = _
  rw [Toml.scanKeyRest]
  split
  · next cs heq => exact absurd heq (hdot cs)
  · rfl

/-- Text that is read as some expressions, whatever lines follow. -/
def Lines (cs : List Char) (es : List Expression) : Prop :=
  ∀ (fuel : ℕ) (acc : List Expression) (rest : List Char), (cs ++ rest).length < fuel →
    ∃ fuel', rest.length < fuel' ∧
      Toml.scanAll fuel acc (cs ++ rest) = Toml.scanAll fuel' (es.reverse ++ acc) rest

theorem Lines.nil : Lines [] [] := fun fuel _ _ hfuel => ⟨fuel, hfuel, rfl⟩

theorem Lines.append {cs cs' : List Char} {es es' : List Expression} (h : Lines cs es)
    (h' : Lines cs' es') : Lines (cs ++ cs') (es ++ es') := by
  intro fuel acc rest hfuel
  rw [List.append_assoc] at hfuel ⊢
  obtain ⟨fuel', hfuel', hscan⟩ := h fuel acc (cs' ++ rest) hfuel
  obtain ⟨fuel'', hfuel'', hscan'⟩ := h' fuel' (es.reverse ++ acc) rest hfuel'
  refine ⟨fuel'', hfuel'', ?_⟩
  rw [hscan, hscan', List.reverse_append, List.append_assoc]

/-- One line. -/
theorem Lines.line {cs : List Char} {e : Option Expression}
    (h : ∀ rest, Toml.scanLine (cs ++ '\n' :: rest) = some (e, '\n' :: rest)) :
    Lines (cs ++ ['\n']) e.toList := by
  intro fuel acc rest hfuel
  obtain ⟨fuel, rfl⟩ : ∃ n, fuel = n + 1 := Nat.exists_eq_add_one.mpr (by omega)
  refine ⟨fuel, by simp at hfuel; omega, ?_⟩
  rw [List.append_assoc, List.singleton_append, Toml.scanAll, h rest]
  cases e <;> rfl

/-- The whole text is read. -/
theorem Lines.parse {cs : List Char} {es : List Expression} (h : Lines cs es) :
    Toml.parse cs = ⟨es, false⟩ := by
  obtain ⟨fuel, hfuel, hscan⟩ := h (cs.length + 1) [] [] (by simp)
  obtain ⟨fuel, rfl⟩ : ∃ n, fuel = n + 1 := Nat.exists_eq_add_one.mpr (by omega)
  rw [List.append_nil] at hscan
  rw [Toml.parse, hscan, Toml.scanAll]
  show Toml.Contents.mk (([] ++ (es.reverse ++ [])).reverse) false = _
  simp

theorem skipSpace_cons {c : Char} (hc : Toml.isSpace c = false) (cs : List Char) :
    Toml.skipSpace (c :: cs) = c :: cs :=
  List.dropWhile_cons_of_neg (by simp [hc])

/-- A key with its value in front of the end of the line. -/
theorem scanMember_entry {key : String} {cs : List Char} {v : Value} (hkey : IsBareKey key)
    (h : ReadsAs cs v) {fuel : ℕ} (hfuel : cs.length + 2 < fuel) (rest : List Char) :
    Toml.scanMember fuel (key.toList ++ ' ' :: '=' :: ' ' :: (cs ++ '\n' :: rest)) =
      some (([key], v), '\n' :: rest) := by
  obtain ⟨fuel, rfl⟩ : ∃ n, fuel = n + 1 := Nat.exists_eq_add_one.mpr (by omega)
  obtain ⟨⟨d, ds, hds, hd⟩, hvalue⟩ := h
  have hscan := hvalue fuel rest (by omega)
  have hscanKey : Toml.scanKey (key.toList ++ ' ' :: '=' :: ' ' :: (cs ++ '\n' :: rest)) =
      some ([⟨key, false⟩], '=' :: ' ' :: (cs ++ '\n' :: rest)) := by
    refine scanKey_bare hkey (by simp [Toml.isBare]) fun cs heq => ?_
    exact absurd (List.cons.inj heq).1 (by decide)
  have hspace : Toml.skipSpace (' ' :: (cs ++ '\n' :: rest)) = cs ++ '\n' :: rest := by
    rw [hds]
    exact skipSpace_cons hd _
  rw [Toml.scanMember, hscanKey]
  show (Toml.scanValue fuel (Toml.skipSpace (' ' :: (cs ++ '\n' :: rest)))).bind _ = _
  rw [hspace, hscan]
  rfl

/-- The line holds the expression that it begins with. -/
theorem scanLine_expression {c : Char} {cs rest : List Char} {e : Expression}
    (hspace : Toml.isSpace c = false) (hc : c ∉ ['#', '\n', '\r'])
    (h : Toml.scanExpression (c :: cs) = some (e, '\n' :: rest)) :
    Toml.scanLine (c :: cs) = some (some e, '\n' :: rest) := by
  simp only [List.mem_cons, List.not_mem_nil, or_false, not_or] at hc
  rw [Toml.scanLine, skipSpace_cons hspace]
  split
  · next heq => cases heq
  · next heq => exact absurd (List.cons.inj heq).1 hc.1
  · next heq => exact absurd (List.cons.inj heq).1 hc.2.1
  · next heq => exact absurd (List.cons.inj heq).1 hc.2.2
  · rw [h]
    rfl

theorem scanExpression_entry {k : Char} {cs rest : List Char} {key : Toml.Key} {v : Value}
    (hk : k ≠ '[')
    (h : Toml.scanMember (2 * (k :: cs).length + 2) (k :: cs) = some ((key, v), rest)) :
    Toml.scanExpression (k :: cs) = some (.assign key v, rest) := by
  rw [Toml.scanExpression]
  · rw [h]
    rfl
  all_goals exact fun _ heq => absurd (List.cons.inj heq).1 hk

/-- A line with a key and a value. -/
theorem scanLine_entry {key : String} {cs : List Char} {v : Value} (hkey : IsBareKey key)
    (h : ReadsAs cs v) (rest : List Char) :
    Toml.scanLine (key.toList ++ ' ' :: '=' :: ' ' :: cs ++ '\n' :: rest) =
      some (some (.assign [key] v), '\n' :: rest) := by
  have hmember := fun fuel hfuel => @scanMember_entry key cs v hkey h fuel hfuel rest
  obtain ⟨k, ks, hks, hk⟩ := exists_bare hkey
  have hassoc : key.toList ++ ' ' :: '=' :: ' ' :: cs ++ '\n' :: rest =
      key.toList ++ ' ' :: '=' :: ' ' :: (cs ++ '\n' :: rest) := by simp
  have hother : k ∉ ['#', '\n', '\r'] := by
    intro hmem
    have hall : ∀ d ∈ ['#', '\n', '\r'], Toml.isBare d = false := by decide
    exact ne_of_isBare hk (hall k hmem) rfl
  rw [hassoc]
  rw [hks, List.cons_append] at hmember ⊢
  exact scanLine_expression (isSpace_of_isBare hk) hother
    (scanExpression_entry (ne_of_isBare hk (by decide)) (hmember _ (by simp; omega)))

/-- A line with the header of a table. -/
theorem scanLine_header {name : String} (hname : IsBareKey name) (rest : List Char) :
    Toml.scanLine ('[' :: (name.toList ++ [']']) ++ '\n' :: rest) =
      some (some (.table [⟨name, false⟩]), '\n' :: rest) := by
  obtain ⟨k, ks, hks, hk⟩ := exists_bare hname
  have hscanKey : Toml.scanKey (name.toList ++ ']' :: '\n' :: rest) =
      some ([⟨name, false⟩], ']' :: '\n' :: rest) := by
    refine scanKey_bare hname (by simp [Toml.isBare]) fun cs heq => ?_
    exact absurd (List.cons.inj heq).1 (by decide)
  have hspace : Toml.skipSpace (name.toList ++ ']' :: '\n' :: rest) =
      name.toList ++ ']' :: '\n' :: rest := by
    rw [hks]
    exact skipSpace_cons (isSpace_of_isBare hk) _
  have hheader : Toml.scanHeader [']'] (name.toList ++ ']' :: '\n' :: rest) =
      some ([⟨name, false⟩], '\n' :: rest) := by
    rw [Toml.scanHeader, hspace, hscanKey]
    rfl
  have hassoc : '[' :: (name.toList ++ [']']) ++ '\n' :: rest =
      '[' :: (name.toList ++ ']' :: '\n' :: rest) := by simp
  rw [hassoc]
  refine scanLine_expression (by decide) (by decide) ?_
  rw [hks, List.cons_append] at hheader ⊢
  rw [Toml.scanExpression, hheader]
  · rfl
  · exact fun _ heq => absurd (List.cons.inj heq).1 (ne_of_isBare hk (by decide))

/-- What a line is read as. -/
def Line.expression? : Line → Option Expression
  | .blank => none
  | .header g => some (.table [⟨groupName g, false⟩])
  | .entry f v => some (.assign [f.key] v.value)

theorem scanLine_written {l : Line} {cs : List Char} (h : l.Written cs) (rest : List Char) :
    Toml.scanLine (cs ++ '\n' :: rest) = some (l.expression?, '\n' :: rest) := by
  cases h with
  | blank => rfl
  | header g => exact scanLine_header (isBareKey_groupName g) rest
  | @entry f _ _ h => exact scanLine_entry (isBareKey_key f) (readsAs_of_denotes h) rest

/-- **The text of a document is read as its lines.** -/
theorem lines_written {doc : List Line} {ls : List (List Char)}
    (h : List.Forall₂ Line.Written doc ls) :
    Lines (joinLines ls) (doc.filterMap Line.expression?) := by
  induction h with
  | nil => exact .nil
  | @cons l cs doc ls hline _ ih =>
    have hlines := (Lines.line fun rest => scanLine_written hline rest).append ih
    have hexpressions : (l :: doc).filterMap Line.expression? =
        l.expression?.toList ++ doc.filterMap Line.expression? := by
      rw [List.filterMap_cons]
      cases l.expression? <;> rfl
    rw [hexpressions]
    exact hlines

end RvBackend.Settings
