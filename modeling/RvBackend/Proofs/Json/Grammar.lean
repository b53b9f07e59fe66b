import Mathlib.Tactic
import RvBackend.Json.Reader
import RvBackend.Proofs.Text.Pieces

/-! # The grammar of JSON tokens

How tokens are written, by the rules of the format: each token has its spellings, and between two
tokens there may be white space. A text that spells tokens is cut into these tokens again, if no
number is followed by another value.

* `Token.IsSpelt`: the spellings of a token, with `IsNumber` and `IsContent` for numbers and
  strings.
* `Spaced`: the texts of a list of tokens.
* `scanFrom_of_spaced`: a text is cut into the tokens that it spells. -/

namespace RvBackend.Json

/-! ### Spelling tokens -/

/-- Digits, at least one. -/
def IsDigits (cs : List Char) : Prop := cs ≠ [] ∧ ∀ c ∈ cs, c.isDigit = true

/-- The integer part of a number: a zero alone, or digits without a leading zero. -/
def IsWhole (cs : List Char) : Prop := cs = ['0'] ∨ IsDigits cs ∧ cs.head? ≠ some '0'

/-- The fraction of a number, which may be missing. -/
def IsFraction (cs : List Char) : Prop := cs = [] ∨ ∃ ds, cs = '.' :: ds ∧ IsDigits ds

/-- The exponent of a number, which may be missing. -/
def IsExponent (cs : List Char) : Prop :=
  cs = [] ∨ ∃ e sign ds, cs = e :: (sign ++ ds) ∧ (e = 'e' ∨ e = 'E') ∧
    (sign = [] ∨ sign = ['+'] ∨ sign = ['-']) ∧ IsDigits ds

/-- A number. -/
def IsNumber (cs : List Char) : Prop :=
  ∃ sign whole fraction exponent, cs = sign ++ (whole ++ (fraction ++ exponent)) ∧
    (sign = [] ∨ sign = ['-']) ∧ IsWhole whole ∧ IsFraction fraction ∧ IsExponent exponent

/-- A text begins with the escape of the second half of a surrogate pair. -/
def BeginsLow (cs : List Char) : Prop :=
  ∃ digits low rest, cs = '\\' :: 'u' :: digits ∧ fourDigits digits = some (low, rest) ∧
    isLowSurrogate low = true

/-- The text between the quotes of a string, and the characters that it stands for. -/
inductive IsContent : List Char → List Char → Prop
  | nil : IsContent [] []
  | plain {c : Char} {cs s : List Char} (hc : 0x20 ≤ c.toNat ∧ c ≠ '"' ∧ c ≠ '\\')
      (h : IsContent cs s) :
    IsContent (c :: cs) (c :: s)
  | short {c x : Char} {cs s : List Char} (hc : shortEscape? c = some x) (h : IsContent cs s) :
    IsContent ('\\' :: c :: cs) (x :: s)
  | code {n : ℕ} {digits cs s : List Char} (hn : fourDigits digits = some (n, cs))
      (hhigh : isHighSurrogate n = false)
    (hlow : isLowSurrogate n = false) (h : IsContent cs s) : IsContent ('\\' :: 'u' :: digits)
    (Char.ofNat n :: s)
  | pair {high low : ℕ} {digits digits' cs s : List Char}
      (hn : fourDigits digits = some (high, '\\' :: 'u' :: digits'))
    (hhigh : isHighSurrogate high = true) (hn' : fourDigits digits' = some (low, cs))
    (hlow : isLowSurrogate low = true) (h : IsContent cs s) :
    IsContent ('\\' :: 'u' :: digits) (joinSurrogates high low :: s)
  /-- Half of a surrogate pair without the other half. -/
  | lone {n : ℕ} {digits cs s : List Char} (hn : fourDigits digits = some (n, cs))
    (hlone : isHighSurrogate n = true ∧ ¬ BeginsLow cs ∨ isLowSurrogate n = true)
    (h : IsContent cs s) :
    IsContent ('\\' :: 'u' :: digits) (Char.ofNat 0xfffd :: s)

/-- The ways to write a token. -/
def Token.IsSpelt : Token → List Char → Prop
  | .beginObject, cs => cs = ['\x7b']
  | .endObject, cs => cs = ['\x7d']
  | .beginArray, cs => cs = ['[']
  | .endArray, cs => cs = [']']
  | .colon, cs => cs = [':']
  | .comma, cs => cs = [',']
  | .null, cs => cs = ['n', 'u', 'l', 'l']
  | .bool true, cs => cs = ['t', 'r', 'u', 'e']
  | .bool false, cs => cs = ['f', 'a', 'l', 's', 'e']
  | .number digits, cs => cs = digits.toList ∧ IsNumber cs
  | .string s, cs => ∃ body, cs = '"' :: (body ++ ['"']) ∧ IsContent body s.toList

/-- Tokens one after the other, with white space between them as one likes. -/
inductive Spaced : List Token → List Char → Prop
  | nil : Spaced [] []
  | space {c : Char} {ts : List Token} {cs : List Char} (hc : isSpace c = true) (h : Spaced ts cs) :
      Spaced ts (c :: cs)
  | token {t : Token} {ts : List Token} {word cs : List Char} (ht : t.IsSpelt word)
      (h : Spaced ts cs) :
    Spaced (t :: ts) (word ++ cs)

theorem Spaced.append {ts ts' : List Token} {cs cs' : List Char} (h : Spaced ts cs)
    (h' : Spaced ts' cs') :
    Spaced (ts ++ ts') (cs ++ cs') := by
  induction h with
  | nil => exact h'
  | space hc _ ih => exact .space hc ih
  | token ht _ ih =>
    rw [List.append_assoc]
    exact .token ht ih

/-- A token of one character. -/
theorem Spaced.cons {t : Token} {c : Char} {ts : List Token} {cs : List Char} (ht : t.IsSpelt [c])
    (h : Spaced ts cs) :
    Spaced (t :: ts) (c :: cs) := .token ht h

/-! ### Cutting a text into tokens -/

theorem fourDigits_append {cs rest : List Char} {n : ℕ} (h : fourDigits cs = some (n, rest))
    (more : List Char) :
    fourDigits (cs ++ more) = some (n, rest ++ more) := by
  unfold fourDigits at h
  split at h
  · obtain ⟨m, hm, heq⟩ := Option.map_eq_some_iff.mp h
    cases heq
    show (Text.readDigits 16 0 _).map _ = _
    rw [hm]
    rfl
  · cases h

theorem stringChar_code {digits rest : List Char} {n : ℕ} (h : fourDigits digits = some (n, rest)) :
    stringChar ('\\' :: 'u' :: digits) = some (unitChar n rest) := by
  show (fourDigits digits).map _ = _
  rw [h]
  rfl

/-! The character of a code: one of its own, that of a pair, or the replacement for half a pair. -/

theorem unitChar_code {n : ℕ} (hhigh : isHighSurrogate n = false) (hlow : isLowSurrogate n = false)
    (rest : List Char) :
    unitChar n rest = (Char.ofNat n, rest) := by
  simp [unitChar, hhigh, hlow]

theorem unitChar_pair {high low : ℕ} {digits rest : List Char} (hhigh : isHighSurrogate high = true)
    (hn : fourDigits digits = some (low, rest)) (hlow : isLowSurrogate low = true) :
    unitChar high ('\\' :: 'u' :: digits) = (joinSurrogates high low, rest) := by
  simp [unitChar, hhigh, hn, hlow]

theorem unitChar_high {n : ℕ} {rest : List Char} (hhigh : isHighSurrogate n = true)
    (hrest : ¬ BeginsLow rest) :
    unitChar n rest = (Char.ofNat 0xfffd, rest) := by
  unfold unitChar
  rw [if_pos hhigh]
  split
  · next digits =>
    split
    · next low rest' hn => exact if_neg fun hlow => hrest ⟨digits, low, rest', rfl, hn, hlow⟩
    · rfl
  · rfl

theorem unitChar_low {n : ℕ} (hlow : isLowSurrogate n = true) (rest : List Char) :
    unitChar n rest = (Char.ofNat 0xfffd, rest) := by
  have hhigh : isHighSurrogate n = false := by
    simp only [isLowSurrogate, Bool.and_eq_true, decide_eq_true_eq] at hlow
    simp only [isHighSurrogate, Bool.and_eq_false_imp, decide_eq_true_eq, decide_eq_false_iff_not]
    omega
  simp [unitChar, hhigh, hlow]

/-- An escape at the beginning of what is left of a string ends before the quote. -/
theorem beginsLow_of_append {cs s rest : List Char} (h : IsContent cs s)
    (hlow : BeginsLow (cs ++ '"' :: rest)) :
    BeginsLow cs := by
  obtain ⟨digits, low, rest', hcs, hn, hlow⟩ := hlow
  have hcode : ∀ {n : ℕ} {ds cs' : List Char}, fourDigits ds = some (n, cs') →
      '\\' :: 'u' :: ds ++ '"' :: rest = '\\' :: 'u' :: digits → BeginsLow ('\\' :: 'u' :: ds) := by
    intro n ds cs' hds heq
    simp only [List.cons_append, List.cons.injEq, true_and] at heq
    rw [← heq, fourDigits_append hds] at hn
    cases hn
    exact ⟨ds, low, cs', rfl, hds, hlow⟩
  cases h with
  | nil => cases hcs
  | plain hc _ => exact absurd (List.cons.inj hcs).1 hc.2.2
  | short hc _ =>
    obtain rfl := (List.cons.inj (List.cons.inj hcs).2).1
    cases hc
  | code hds _ _ _ => exact hcode hds hcs
  | pair hds _ _ _ _ => exact hcode hds hcs
  | lone hds _ _ => exact hcode hds hcs

theorem scanString_of_stringChar {acc cs rest : List Char} {c : Char}
    (h : stringChar cs = some (c, rest)) :
    scanString acc cs = scanString (c :: acc) rest := by
  rw [scanString.eq_def]
  split
  · next rest' =>
    have hquote : stringChar ('"' :: rest') = none := by simp [stringChar]
    rw [hquote] at h
    cases h
  · split
    · next c' rest' h' =>
      rw [h] at h'
      cases h'
      rfl
    · next h' =>
      rw [h] at h'
      cases h'

theorem stringChar_plain {c : Char} (hc : 0x20 ≤ c.toNat ∧ c ≠ '"' ∧ c ≠ '\\') (rest : List Char) :
    stringChar (c :: rest) = some (c, rest) := by
  have hcontrol : ¬ c.toNat < 0x20 := Nat.not_lt.mpr hc.1
  rw [stringChar]
  · simp [hcontrol, hc.2]
  · exact fun _ h => absurd h hc.2.2
  · exact fun _ _ h => absurd h hc.2.2

theorem stringChar_short {c x : Char} (hc : shortEscape? c = some x) (rest : List Char) :
    stringChar ('\\' :: c :: rest) = some (x, rest) := by
  have hu : c ≠ 'u' := by
    rintro rfl
    cases hc
  rw [stringChar]
  · rw [hc]
    rfl
  · exact fun h => hu h

/-- The characters of a code, each with the rule that it is written by. -/
theorem isContent_of_unitChar {digits cs rest s : List Char} {n : ℕ} {c : Char}
    (hn : fourDigits digits = some (n, cs)) (h : unitChar n cs = (c, rest))
    (hrest : IsContent rest s) : IsContent ('\\' :: 'u' :: digits) (c :: s) := by
  by_cases hhigh : isHighSurrogate n = true
  · by_cases hlow : BeginsLow cs
    · obtain ⟨digits', low, cs', rfl, hn', hlow⟩ := hlow
      rw [unitChar_pair hhigh hn' hlow] at h
      obtain ⟨rfl, rfl⟩ := Prod.mk.inj h
      exact .pair hn hhigh hn' hlow hrest
    · rw [unitChar_high hhigh hlow] at h
      obtain ⟨rfl, rfl⟩ := Prod.mk.inj h
      exact .lone hn (.inl ⟨hhigh, hlow⟩) hrest
  · by_cases hlow : isLowSurrogate n = true
    · rw [unitChar_low hlow] at h
      obtain ⟨rfl, rfl⟩ := Prod.mk.inj h
      exact .lone hn (.inr hlow) hrest
    · rw [Bool.not_eq_true] at hhigh hlow
      rw [unitChar_code hhigh hlow] at h
      obtain ⟨rfl, rfl⟩ := Prod.mk.inj h
      exact .code hn hhigh hlow hrest

/-- What is read as a character is a spelling of it, in front of whatever else belongs to the
string. -/
theorem isContent_of_stringChar {cs rest s : List Char} {c : Char}
    (h : stringChar cs = some (c, rest)) (hrest : IsContent rest s) : IsContent cs (c :: s) := by
  unfold stringChar at h
  split at h
  · obtain ⟨⟨n, cs⟩, hn, h⟩ := Option.map_eq_some_iff.mp h
    exact isContent_of_unitChar hn h hrest
  · obtain ⟨x, hx, h⟩ := Option.map_eq_some_iff.mp h
    cases h
    exact .short hx hrest
  · split at h
    · cases h
    · next hplain =>
      cases h
      simp only [Bool.or_eq_true, decide_eq_true_eq, beq_iff_eq, not_or, Nat.not_lt] at hplain
      exact .plain ⟨hplain.1.1, hplain.2, hplain.1.2⟩ hrest
  · cases h

/-- **A string is read up to its closing quote.** -/
theorem scanString_of_isContent {cs s : List Char} (h : IsContent cs s) (acc rest : List Char) :
    scanString acc (cs ++ '"' :: rest) = some (String.ofList (acc.reverse ++ s), rest) := by
  induction h generalizing acc with
  | nil => rw [List.nil_append, scanString, List.append_nil]
  | plain hc _ ih =>
    rw [List.cons_append, scanString_of_stringChar (stringChar_plain hc _), ih]
    simp
  | short hc _ ih =>
    rw [List.cons_append, List.cons_append, scanString_of_stringChar (stringChar_short hc _), ih]
    simp
  | code hn hhigh hlow _ ih =>
    have hchar := stringChar_code (fourDigits_append hn ('"' :: rest))
    rw [unitChar_code hhigh hlow] at hchar
    rw [List.cons_append, List.cons_append, scanString_of_stringChar hchar, ih]
    simp
  | pair hn hhigh hn' hlow _ ih =>
    have hchar := stringChar_code (fourDigits_append hn ('"' :: rest))
    rw [List.cons_append, List.cons_append,
      unitChar_pair hhigh (fourDigits_append hn' ('"' :: rest)) hlow] at hchar
    rw [List.cons_append, List.cons_append, scanString_of_stringChar hchar, ih]
    simp
  | lone hn hlone h ih =>
    have hchar := stringChar_code (fourDigits_append hn ('"' :: rest))
    have hunit : ∀ more, unitChar _ (_ ++ '"' :: more) = (Char.ofNat 0xfffd, _ ++ '"' :: more) :=
      fun more =>
      hlone.elim
        (fun hhigh => unitChar_high hhigh.1 fun hlow => hhigh.2 (beginsLow_of_append h hlow))
        fun hlow => unitChar_low hlow _
    rw [hunit] at hchar
    rw [List.cons_append, List.cons_append, scanString_of_stringChar hchar, ih]
    simp

/-- What follows a number: nothing, or a character that ends it. -/
def Delimited (rest : List Char) : Prop :=
  ∀ c ∈ rest.head?, isSpace c = true ∨ c = ',' ∨ c = ']' ∨ c = '\x7d'

theorem spanDigits_append {ds rest : List Char} (h : IsDigits ds)
    (hrest : ∀ c ∈ rest.head?, c.isDigit = false) :
    spanDigits (ds ++ rest) = (ds, rest) := Text.span_append h.2 hrest

theorem scanInteger_append {whole rest : List Char} (h : IsWhole whole)
    (hrest : ∀ c ∈ rest.head?, c.isDigit = false) :
    scanInteger (whole ++ rest) = some (whole, rest) := by
  rcases h with rfl | ⟨hdigits, hzero⟩
  · rfl
  · obtain ⟨d, ds, rfl⟩ := List.exists_cons_of_ne_nil hdigits.1
    have hspan := spanDigits_append hdigits hrest
    unfold scanInteger
    split
    · next heq => exact absurd (congrArg some (List.cons.inj heq).1) hzero
    · rw [hspan]

theorem scanFraction_append {fraction rest : List Char} (h : IsFraction fraction)
    (hrest : ∀ c ∈ rest.head?, c.isDigit = false ∧ c ≠ '.') :
    scanFraction (fraction ++ rest) = (fraction, rest) := by
  rcases h with rfl | ⟨ds, rfl, hdigits⟩
  · rw [List.nil_append]
    unfold scanFraction
    split
    · exact absurd rfl (hrest '.' rfl).2
    · rfl
  · obtain ⟨d, ds, rfl⟩ := List.exists_cons_of_ne_nil hdigits.1
    have hspan := spanDigits_append hdigits fun c hc => (hrest c hc).1
    show scanFraction ('.' :: (d :: ds ++ rest)) = _
    rw [scanFraction, hspan]

theorem Delimited.isDigit {rest : List Char} (h : Delimited rest) :
    ∀ c ∈ rest.head?, c.isDigit = false ∧ c ≠ '.' ∧ c ≠ 'e' ∧ c ≠ 'E' := by
  intro c hc
  rcases h c hc with hspace | rfl | rfl | rfl
  · simp only [isSpace, Bool.or_eq_true, beq_iff_eq] at hspace
    rcases hspace with ((rfl | rfl) | rfl) | rfl <;> decide
  all_goals decide

theorem scanExponent_append {exponent rest : List Char} (h : IsExponent exponent)
    (hrest : Delimited rest) :
    scanExponent (exponent ++ rest) = (exponent, rest) := by
  rcases h with rfl | ⟨e, sign, ds, rfl, he, hsign, hdigits⟩
  · rw [List.nil_append]
    cases rest with
    | nil => rfl
    | cons c rest =>
      obtain ⟨-, -, hc⟩ := hrest.isDigit c rfl
      simp [scanExponent, hc]
  · have hspan := spanDigits_append hdigits fun c hc => (hrest.isDigit c hc).1
    obtain ⟨d, ds, rfl⟩ := List.exists_cons_of_ne_nil hdigits.1
    have hd : d ≠ '+' ∧ d ≠ '-' := by
      have hdigit := hdigits.2 d List.mem_cons_self
      constructor <;> rintro rfl <;> exact absurd hdigit (by decide)
    have hletter : (e == 'e' || e == 'E') = true := by rcases he with rfl | rfl <;> rfl
    rcases hsign with rfl | rfl | rfl
    · show scanExponent (e :: (d :: ds ++ rest)) = _
      rw [scanExponent, if_pos hletter, hspan]
      · rfl
      · exact fun r heq => hd.1 (List.cons.inj heq).1
      · exact fun r heq => hd.2 (List.cons.inj heq).1
    · show scanExponent (e :: '+' :: (d :: ds ++ rest)) = _
      rw [scanExponent, if_pos hletter, hspan]
      rfl
    · show scanExponent (e :: '-' :: (d :: ds ++ rest)) = _
      rw [scanExponent, if_pos hletter, hspan]
      rfl

/-- The fraction and the exponent of a number are told apart from its integer part by their first
characters. -/
theorem isDigit_exponent {exponent rest : List Char} (h : IsExponent exponent)
    (hrest : Delimited rest) :
    ∀ c ∈ (exponent ++ rest).head?, c.isDigit = false ∧ c ≠ '.' := by
  rcases h with rfl | ⟨e, sign, ds, rfl, he, -⟩
  · exact fun c hc => ⟨(hrest.isDigit c hc).1, (hrest.isDigit c hc).2.1⟩
  · intro c hc
    obtain rfl : e = c := Option.some.inj hc
    rcases he with rfl | rfl <;> decide

theorem isDigit_fraction {fraction rest : List Char} (h : IsFraction fraction)
    (hrest : ∀ c ∈ rest.head?, c.isDigit = false) :
    ∀ c ∈ (fraction ++ rest).head?, c.isDigit = false := by
  rcases h with rfl | ⟨ds, rfl, -⟩
  · exact hrest
  · intro c hc
    obtain rfl : '.' = c := Option.some.inj hc
    rfl

theorem head?_whole {whole : List Char} (h : IsWhole whole) :
    ∃ d ds, whole = d :: ds ∧ d.isDigit = true := by
  rcases h with rfl | ⟨hdigits, -⟩
  · exact ⟨'0', [], rfl, rfl⟩
  · obtain ⟨d, ds, rfl⟩ := List.exists_cons_of_ne_nil hdigits.1
    exact ⟨d, ds, rfl, hdigits.2 d List.mem_cons_self⟩

/-- **A number is read up to the character that ends it.** -/
theorem scanNumber_append {cs rest : List Char} (h : IsNumber cs) (hrest : Delimited rest) :
    scanNumber (cs ++ rest) = some (String.ofList cs, rest) := by
  obtain ⟨sign, whole, fraction, exponent, rfl, hsign, hwhole, hfraction, hexponent⟩ := h
  have hinteger := scanInteger_append hwhole
    (isDigit_fraction hfraction fun c hc => (isDigit_exponent hexponent hrest c hc).1)
  have hfrac := scanFraction_append hfraction (isDigit_exponent hexponent hrest)
  have hexp := scanExponent_append hexponent hrest
  rcases hsign with rfl | rfl
  · have hminus : ∀ r, whole ++ (fraction ++ (exponent ++ rest)) ≠ '-' :: r := by
      intro r heq
      obtain ⟨d, ds, rfl, hd⟩ := head?_whole hwhole
      obtain rfl := (List.cons.inj heq).1
      exact absurd hd (by decide)
    simp only [List.nil_append, List.append_assoc]
    unfold scanNumber
    split
    next sign cs heq =>
    split at heq
    · next r hr => exact absurd hr (hminus r)
    · cases heq
      rw [hinteger]
      simp [hfrac, hexp]
  · simp only [List.append_assoc]
    show (scanInteger (whole ++ (fraction ++ (exponent ++ rest)))).map _ = _
    rw [hinteger]
    simp [hfrac, hexp]

/-- A number. -/
def Token.IsNumber : Token → Prop
  | .number _ => True
  | _ => False

/-- A token that can stand behind a value. -/
def Token.Closes (t : Token) : Prop := t = .comma ∨ t = .endArray ∨ t = .endObject

theorem isNumber_head {cs : List Char} (h : IsNumber cs) :
    ∃ c cs', cs = c :: cs' ∧ (c = '-' ∨ c.isDigit = true) := by
  obtain ⟨sign, whole, fraction, exponent, rfl, hsign, hwhole, -⟩ := h
  obtain ⟨d, ds, rfl, hd⟩ := head?_whole hwhole
  rcases hsign with rfl | rfl
  · exact ⟨d, _, rfl, .inr hd⟩
  · exact ⟨'-', _, rfl, .inl rfl⟩

/-- A token begins with a character that is no white space. -/
theorem Token.IsSpelt.head {t : Token} {word : List Char} (h : t.IsSpelt word) :
    ∃ c word', word = c :: word' ∧ isSpace c = false := by
  unfold Token.IsSpelt at h
  split at h
  case h_10 =>
    obtain ⟨c, cs, rfl, hc⟩ := isNumber_head h.2
    refine ⟨c, cs, rfl, ?_⟩
    by_contra hspace
    simp only [isSpace, Bool.not_eq_false, Bool.or_eq_true, beq_iff_eq] at hspace
    rcases hspace with ((rfl | rfl) | rfl) | rfl <;> exact absurd hc (by decide)
  case h_11 =>
    obtain ⟨body, rfl, -⟩ := h
    exact ⟨'"', _, rfl, rfl⟩
  all_goals
    subst h
    exact ⟨_, _, rfl, rfl⟩

/-- **A token is read as it is spelt**, if what follows a number ends it. -/
theorem scanToken_append {t : Token} {word rest : List Char} (h : t.IsSpelt word)
    (hrest : t.IsNumber → Delimited rest) : scanToken (word ++ rest) = some (t, rest) := by
  unfold Token.IsSpelt at h
  split at h
  case h_10 digits =>
    obtain ⟨rfl, hnumber⟩ := h
    have hscan := scanNumber_append hnumber (hrest trivial)
    obtain ⟨c, cs, hcs, hc⟩ := isNumber_head hnumber
    have hnot : ∀ d : Char, ¬ (d = '-' ∨ d.isDigit = true) → c ≠ d := fun d hd heq => hd (heq ▸ hc)
    rw [String.ofList_toList, hcs, List.cons_append] at hscan
    rw [hcs, List.cons_append, scanToken]
    · rw [hscan]
      rfl
    all_goals
      intro cs' heq
      exact hnot _ (by decide) (List.cons.inj heq).1
  case h_11 s =>
    obtain ⟨body, rfl, hbody⟩ := h
    have hscan := scanString_of_isContent hbody [] rest
    rw [List.cons_append, List.append_assoc]
    show (scanString [] (body ++ '"' :: rest)).map _ = _
    rw [hscan]
    simp
  all_goals
    subst h
    rfl

theorem delimited_of_spaced {ts : List Token} {cs : List Char} (h : Spaced ts cs)
    (hts : ∀ t ∈ ts.head?, t.Closes) :
    Delimited cs := by
  cases h with
  | nil => exact fun c hc => absurd hc (by simp)
  | space hc _ =>
    intro c' hc'
    obtain rfl := Option.some.inj hc'
    exact .inl hc
  | @token t _ word _ ht _ =>
    intro c hc
    rcases hts t rfl with rfl | rfl | rfl
    · obtain rfl : word = [','] := ht
      obtain rfl : ',' = c := Option.some.inj hc
      exact .inr (.inl rfl)
    · obtain rfl : word = [']'] := ht
      obtain rfl : ']' = c := Option.some.inj hc
      exact .inr (.inr (.inl rfl))
    · obtain rfl : word = ['\x7d'] := ht
      obtain rfl : '\x7d' = c := Option.some.inj hc
      exact .inr (.inr (.inr rfl))

/-- A number is not followed by another value. -/
def Token.Follows (t t' : Token) : Prop := t.IsNumber → t'.Closes

/-- **A text is cut into the tokens that it spells.** -/
theorem scanFrom_of_spaced {ts : List Token} {cs : List Char} (h : Spaced ts cs)
    (hts : ts.IsChain Token.Follows) {fuel : ℕ} (hfuel : cs.length ≤ fuel) (acc : List Lexeme) :
    ∃ ls, scanFrom fuel acc cs = some (acc.reverse ++ ls) ∧ ls.map Lexeme.token = ts := by
  induction h generalizing fuel acc with
  | nil =>
    refine ⟨[], ?_, rfl⟩
    rw [List.append_nil]
    cases fuel <;> rfl
  | space hc _ ih =>
    obtain ⟨fuel, rfl⟩ : ∃ n, fuel = n + 1 :=
      Nat.exists_eq_add_one.mpr (Nat.lt_of_lt_of_le (Nat.succ_pos _) hfuel)
    rw [scanFrom, if_pos hc]
    exact ih hts (Nat.le_of_succ_le_succ hfuel) acc
  | @token t ts word cs ht h ih =>
    obtain ⟨hfollows, hts⟩ := List.isChain_cons.mp hts
    have hscan :=
      scanToken_append ht fun hnumber => delimited_of_spaced h fun t' ht' => hfollows t' ht' hnumber
    obtain ⟨c, word, rfl, hc⟩ := ht.head
    obtain ⟨fuel, rfl⟩ : ∃ n, fuel = n + 1 :=
      Nat.exists_eq_add_one.mpr (Nat.lt_of_lt_of_le (Nat.succ_pos _) hfuel)
    have hroom : cs.length ≤ fuel := by
      simp only [List.cons_append, List.length_cons, List.length_append] at hfuel
      omega
    obtain ⟨ls, hls, htokens⟩ := ih hts hroom (⟨t, c :: (word ++ cs), cs⟩ :: acc)
    refine ⟨⟨t, c :: (word ++ cs), cs⟩ :: ls, ?_, by rw [List.map_cons, htokens]⟩
    rw [List.cons_append] at hscan ⊢
    rw [scanFrom, hc, if_neg Bool.false_ne_true, hscan]
    show scanFrom fuel _ cs = _
    rw [hls, List.reverse_cons, List.append_assoc]
    rfl

end RvBackend.Json
