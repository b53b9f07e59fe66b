import RvBackend.Proofs.Tree.Recovery

/-! # Names of types

A text that names a type is a name, or a name and sizes in brackets. The printed name of a type that
was read is read as an equal type, and types that were read are equal exactly if their printed names
are. The exception is a name with opening brackets behind it and nothing else: it is read as an
array without sizes, which is printed as if it were no array.

* `Ty.Named`: the texts that name a type, with the types that they name; there are no others
  (`Ty.named_of_parse`).
* `Ty.Unsized`: a name with nothing but opening brackets behind it.
* `Ty.names_read_back_iff`: when the printed name is read back, and when it tells two types
  apart. -/

namespace RvBackend

/-! ### Sizes -/

/-- There are only empty parts between separators and nothing else. -/
theorem Text.filter_splitOn_eq_nil_iff {sep : Char} {cs : List Char} :
    (Text.splitOn sep cs).filter (!·.isEmpty) = [] ↔ ∀ c ∈ cs, c = sep := by
  induction cs with
  | nil => simp [Text.splitOn]
  | cons c cs ih =>
    by_cases hc : c = sep
    · have hsplit : Text.splitOn sep (c :: cs) = [] :: Text.splitOn sep cs := by
        show Text.splitStep sep c (Text.splitOn sep cs) = _
        unfold Text.splitStep
        rw [if_pos hc]
      rw [hsplit, List.filter_cons_of_neg (by simp), ih]
      simp [hc]
    · obtain ⟨part, parts, hparts⟩ := List.exists_cons_of_ne_nil (Text.splitOn_ne_nil sep cs)
      rw [Text.splitOn_cons_of_ne hc hparts, List.filter_cons_of_pos (by simp)]
      simp [hc]

namespace Ty

theorem inInt64_of_parseSize {part : List Char} {n : ℤ} (h : parseSize part = some n) :
    InInt64 n := by
  obtain ⟨digits, -, hread⟩ := Option.bind_eq_some_iff.mp h
  exact (Option.filter_eq_some_iff.mp hread).2

theorem inInt64_of_mapM {parts : List (List Char)} {ns : List ℤ}
    (h : parts.mapM parseSize = some ns) :
    ∀ n ∈ ns, InInt64 n := by
  induction parts generalizing ns with
  | nil =>
    cases h
    exact fun n hn => absurd hn List.not_mem_nil
  | cons part parts ih =>
    simp only [List.mapM_cons, Option.bind_eq_bind, Option.bind_eq_some_iff] at h
    obtain ⟨n, hn, ns', hns', heq⟩ := h
    cases heq
    exact List.forall_mem_cons.mpr ⟨inInt64_of_parseSize hn, ih hns'⟩

/-- An array has no sizes only if no size was written. -/
theorem parseSizes_eq_nil_iff {cs : List Char} : parseSizes cs = some [] ↔ ∀ c ∈ cs, c = '[' := by
  rw [← Text.filter_splitOn_eq_nil_iff, parseSizes]
  cases (Text.splitOn '[' cs).filter (!·.isEmpty) with
  | nil => simp
  | cons part parts =>
    simp only [List.mapM_cons, Option.bind_eq_bind, Option.bind_eq_some_iff, reduceCtorEq,
      iff_false]
    rintro ⟨n, -, ns, -, heq⟩
    cases heq

/-! ### Base types -/

/-- A name without an opening bracket. -/
def IsName (name : String) : Prop := name ≠ "" ∧ '[' ∉ name.toList

theorem text_ofName (name : String) : (ofName name).text = name := by
  unfold ofName
  split
  · next p hp =>
    have hname := List.find?_some hp
    exact eq_of_beq hname
  · rfl

theorem ofName_injective : Function.Injective ofName := by
  intro name name' h
  rw [← text_ofName name, h, text_ofName]

theorem isArray_ofName (name : String) : (ofName name).isArray = false := by
  unfold ofName
  split <;> rfl

theorem ofName_ne_array (name : String) (element : Ty) (sizes : List ℤ) :
    ofName name ≠ .array element sizes := by
  intro h
  have harray := isArray_ofName name
  rw [h] at harray
  cases harray

theorem isBase_ofName {name : String} (h : IsName name) : (ofName name).IsBase := by
  unfold ofName
  split
  · trivial
  · exact h

theorem resolved_ofName (name : String) : (ofName name).resolved = ofName name := by
  have hnamed : ∀ t : Ty, t = ofName name → t.resolved = ofName name := by
    rintro (p | name' | ⟨e, sizes⟩) h
    · exact h
    · rw [resolved, ← text_ofName name, ← h]
      rfl
    · exact absurd h.symm (ofName_ne_array _ _ _)
  exact hnamed _ rfl

/-! ### Texts that name a type -/

/-- The texts that name a type, with the types that they name. -/
inductive Named : String → Ty → Prop where
  | base {name : String} (hname : IsName name) : Named name (ofName name)
  | array {s name : String} {rest : List Char} {sizes : List ℤ} (hname : IsName name)
      (hs : s.toList = name.toList ++ '[' :: rest) (hsizes : parseSizes rest = some sizes) :
      Named s (.array (ofName name) sizes)

/-- **A text is read only if it names a type**, and as the type that it names. -/
theorem named_of_parse {s : String} {t : Ty} (h : parse s = .ok t) : Named s t := by
  by_cases hbracket : '[' ∈ s.toList
  · obtain ⟨front, rest, hs, hfront⟩ := List.eq_append_cons_of_mem hbracket
    rw [parse, hs, Text.cut_append rest hfront] at h
    cases front with
    | nil => cases h
    | cons c cs =>
      cases hsizes : parseSizes rest with
      | none =>
        simp only [hsizes] at h
        cases h
      | some sizes =>
        simp only [hsizes] at h
        cases h
        have hname : IsName (String.ofList (c :: cs)) := by
          refine ⟨fun hempty => ?_, by rwa [String.toList_ofList]⟩
          have hchars := congrArg String.toList hempty
          rw [String.toList_ofList] at hchars
          cases hchars
        exact .array hname (by rw [hs, String.toList_ofList]) hsizes
  · rw [parse, Text.cut_of_notMem hbracket] at h
    simp only at h
    split at h
    · cases h
    · next hempty =>
      cases h
      exact .base ⟨by simpa using hempty, hbracket⟩

/-! ### Names with opening brackets -/

/-- The name with nothing but opening brackets behind it, of which there is one at least. -/
def Unsized (name s : String) : Prop :=
  IsName name ∧ ∃ k, s.toList = name.toList ++ List.replicate (k + 1) '['

section Named

variable {s s' name : String} {t t' : Ty}

/-- Such texts, and no others, are read as arrays without sizes. -/
theorem Named.unsized_iff (h : Named s t) : Unsized name s ↔ t = .array (ofName name) [] := by
  cases h with
  | base hname =>
    refine ⟨?_, fun heq => ?_⟩
    · rintro ⟨-, k, hs⟩
      refine absurd (?_ : '[' ∈ s.toList) hname.2
      rw [hs]
      simp
    · exact absurd heq (ofName_ne_array _ _ _)
  | @array name' rest sizes hname hs hsizes =>
    constructor
    · rintro ⟨hname', k, hs'⟩
      -- the first bracket ends the name in both readings of the text
      have hcut := Text.cut_append rest hname.2
      have hcut' := Text.cut_append (List.replicate k '[') hname'.2
      rw [← List.replicate_succ, ← hs', hs, hcut] at hcut'
      obtain ⟨hnames, rfl⟩ := Prod.mk.inj (Option.some.inj hcut')
      obtain rfl := String.toList_injective hnames
      have hnil : parseSizes (List.replicate k '[') = some [] :=
        parseSizes_eq_nil_iff.mpr fun c hc => List.eq_of_mem_replicate hc
      rw [hnil] at hsizes
      rw [← Option.some.inj hsizes]
    · intro heq
      injection heq with hnames hnil
      obtain rfl := ofName_injective hnames
      rw [hnil] at hsizes
      have hrest := List.eq_replicate_of_mem (parseSizes_eq_nil_iff.mp hsizes)
      refine ⟨hname, rest.length, ?_⟩
      rw [hs, List.replicate_succ, ← hrest]

/-- The printed name of a base type, or of an array with a size, is read back. -/
theorem Named.parse_text (h : Named s t) (hsized : ∀ name, ¬ Unsized name s) :
    parse t.text = .ok t := by
  cases h with
  | base hname =>
    have hwritten : (ofName s).Written := by
      have hbase := isBase_ofName hname
      cases hform : ofName s with
      | predeclared p => trivial
      | named name => rwa [hform] at hbase
      | array element sizes => rw [hform] at hbase; exact hbase.elim
    rw [Ty.parse_text hwritten, resolved_ofName]
  | @array name rest sizes hname hs hsizes =>
    have hne : sizes ≠ [] := by
      rintro rfl
      exact hsized name ((Named.array hname hs hsizes).unsized_iff.mpr rfl)
    have hwritten : (Ty.array (ofName name) sizes).Written :=
      ⟨isBase_ofName hname, hne, inInt64_of_mapM hsizes⟩
    rw [Ty.parse_text hwritten, resolved, resolved_ofName]

theorem parse_name (hname : IsName name) : parse name = .ok (ofName name) := by
  have hread := (Named.base hname).parse_text fun name' hunsized => ?_
  · rwa [text_ofName] at hread
  · exact absurd ((Named.base hname).unsized_iff.mp hunsized) (ofName_ne_array _ _ _)

/-- An array without sizes is printed as its element type. -/
theorem text_unsized (name : String) : (Ty.array (ofName name) []).text = name := by
  rw [text, text_ofName]
  exact String.append_empty

/-- A text whose type is printed like an array without sizes, but has none of its brackets, is the
name of that array's element type. -/
theorem Named.eq_name (h : Named s t) (hsized : ∀ name', ¬ Unsized name' s) (hname : IsName name)
    (htext : t.text = name) : s = name := by
  have hread := h.parse_text hsized
  rw [htext, parse_name hname] at hread
  have ht := Except.ok.inj hread
  cases h with
  | base hs => exact ofName_injective ht.symm
  | array hname' hs hsizes => exact absurd ht (ofName_ne_array _ _ _)

/-- Types that are printed alike are the same, unless one was read from the name of the other and
brackets. -/
theorem Named.eq_of_text (h : Named s t) (h' : Named s' t') (htext : t.text = t'.text)
    (hs : ¬ Unsized s s') (hs' : ¬ Unsized s' s) : t = t' := by
  by_cases hsized : ∃ name, Unsized name s
  · obtain ⟨name, hunsized⟩ := hsized
    obtain rfl := h.unsized_iff.mp hunsized
    rw [text_unsized] at htext
    by_cases hsized' : ∃ name, Unsized name s'
    · obtain ⟨name', hunsized'⟩ := hsized'
      obtain rfl := h'.unsized_iff.mp hunsized'
      rw [text_unsized] at htext
      rw [htext]
    · have heq := h'.eq_name (not_exists.mp hsized') hunsized.1 htext.symm
      exact absurd (heq ▸ hunsized) hs'
  · by_cases hsized' : ∃ name, Unsized name s'
    · obtain ⟨name', hunsized'⟩ := hsized'
      obtain rfl := h'.unsized_iff.mp hunsized'
      rw [text_unsized] at htext
      have heq := h.eq_name (not_exists.mp hsized) hunsized'.1 htext
      exact absurd (heq ▸ hunsized') hs
    · have hread := h.parse_text (not_exists.mp hsized)
      rw [htext, h'.parse_text (not_exists.mp hsized')] at hread
      exact (Except.ok.inj hread).symm

end Named

/-! ### Equal types -/

theorem equals_self (t : Ty) : t.equals t = true := by
  induction t with
  | predeclared p => simp [equals]
  | named name => simp [equals]
  | array element sizes ih => simp [equals, ih]

theorem text_eq_of_equals {a b : Ty} (h : a.equals b = true) : a.text = b.text := by
  induction a generalizing b with
  | predeclared p => cases b <;> simp_all [equals]
  | named name => cases b <;> simp_all [equals]
  | array element sizes ih =>
    cases b with
    | array element' sizes' =>
      rw [equals, Bool.and_eq_true, beq_iff_eq] at h
      rw [text, text, h.1, ih h.2]
    | predeclared p => cases h
    | named name => cases h

theorem equals_of_isArray_ne {a b : Ty} (h : a.isArray ≠ b.isArray) : a.equals b = false := by
  cases a <;> cases b <;> first | rfl | exact absurd rfl h

/-- The type of a name and the array that is read from the name and brackets are printed alike, but
are not equal. -/
theorem Named.equals_unsized {s s' : String} {t t' : Ty} (h : Named s t) (h' : Named s' t')
    (hunsized : Unsized s s') :
    t.text = t'.text ∧ t.equals t' = false ∧ t'.equals t = false := by
  have ht : t = ofName s := by
    cases h with
    | base hname => rfl
    | array hname hs hsizes =>
      refine absurd ?_ hunsized.1.2
      rw [hs]
      simp
  obtain rfl := h'.unsized_iff.mp hunsized
  have hne : t.isArray ≠ (Ty.array (ofName s) []).isArray := by
    rw [ht, isArray_ofName]
    exact Bool.false_ne_true
  refine ⟨?_, equals_of_isArray_ne hne, equals_of_isArray_ne hne.symm⟩
  rw [ht, text_ofName, text_unsized]

/-- **The printed name of a type that was read is read as an equal type**, unless the text was a
name with nothing but opening brackets behind it; **and two types that were read are equal exactly
if they are printed alike**, unless one of the texts is the other with nothing but opening brackets
behind it. -/
theorem names_read_back_iff {s s' : String} {t t' : Ty} (h : parse s = .ok t)
    (h' : parse s' = .ok t') :
    ((∃ u, parse t.text = .ok u ∧ u.equals t = true ∧ t.equals u = true) ↔ ¬ ∃ name,
      Unsized name s) ∧
    ((t.equals t' = true ↔ t.text = t'.text) ↔ ¬ (Unsized s s' ∨ Unsized s' s)) := by
  have hs := named_of_parse h
  have hs' := named_of_parse h'
  refine ⟨⟨?_, ?_⟩, ⟨?_, ?_⟩⟩
  · rintro ⟨u, hread, hequals, -⟩ ⟨name, hunsized⟩
    obtain rfl := hs.unsized_iff.mp hunsized
    rw [text_unsized, parse_name hunsized.1] at hread
    obtain rfl := Except.ok.inj hread
    rw [equals_of_isArray_ne (by rw [isArray_ofName]; exact Bool.false_ne_true)] at hequals
    cases hequals
  · intro hsized
    exact ⟨t, hs.parse_text (not_exists.mp hsized), equals_self t, equals_self t⟩
  · rintro hiff (hunsized | hunsized)
    · obtain ⟨htext, hequals, -⟩ := hs.equals_unsized hs' hunsized
      rw [hiff.mpr htext] at hequals
      cases hequals
    · obtain ⟨htext, -, hequals⟩ := hs'.equals_unsized hs hunsized
      rw [hiff.mpr htext.symm] at hequals
      cases hequals
  · intro hapart
    rw [not_or] at hapart
    refine ⟨text_eq_of_equals, fun htext => ?_⟩
    rw [hs.eq_of_text hs' htext hapart.1 hapart.2]
    exact equals_self t'

/-- An array with a size at the end of the range. -/
def oddArray : Ty := .array (.named "matrix") [3, 0, 7, -9223372036854775808]

/-- Signs, leading zeros and brackets that count for nothing. -/
theorem oddArray_read_back :
    parse "matrix[[+3][-0][007][-9223372036854775808][" = .ok oddArray ∧
    parse "matrix" = .ok (.named "matrix") ∧
    (∃ u, parse oddArray.text = .ok u ∧ u.equals oddArray = true ∧ oddArray.equals u = true) ∧
    (oddArray.equals (.named "matrix") = true ↔ oddArray.text = (Ty.named "matrix").text) := by
  have h : parse "matrix[[+3][-0][007][-9223372036854775808][" = .ok oddArray := by decide +kernel
  have h' : parse "matrix" = .ok (.named "matrix") := by decide +kernel
  have hsized : ∀ name, ¬ Unsized name "matrix[[+3][-0][007][-9223372036854775808][" := by
    intro name hunsized
    have heq := (named_of_parse h).unsized_iff.mp hunsized
    exact List.cons_ne_nil _ _ (Ty.array.inj heq).2
  have hname : ¬ Unsized "matrix[[+3][-0][007][-9223372036854775808][" "matrix" :=
    fun hunsized => hunsized.1.2 (by decide)
  obtain ⟨hread, hequal⟩ := names_read_back_iff h h'
  exact ⟨h, h', hread.mpr (not_exists.mpr hsized), hequal.mpr (not_or.mpr ⟨hname, hsized _⟩)⟩

/-- An array without sizes is read from a bracket that is not closed, and its printed name is that
of no array. -/
theorem open_bracket_not_read_back :
    parse "integer[" = .ok (.array .integer []) ∧ parse (Ty.array .integer []).text = .ok .integer ∧
    Ty.integer.equals (.array .integer []) = false ∧
    (Ty.array .integer []).equals .integer = false ∧
    (Ty.array .integer []).text = Ty.integer.text := by
  decide +kernel

end Ty

end RvBackend
