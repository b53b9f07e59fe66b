import RvBackend.Proofs.Settings.Written
import RvBackend.Proofs.Text.Utf8

/-! # Settings that are read back

A file of settings may leave out any keys. Whatever keys it has, reading it gives the default
settings with the values of these keys in place of theirs; a file with all keys gives back the
settings it was written from. This holds of every library that writes and reads documents as TOML
says they are written and read, and `library` is such a library.

* `Reached` is the invariant of reading: the values of the lines so far are in place, and no group
  and no key but theirs is known.
* `library_writes`, `library_reads`: what the library writes and reads.
* `load_excerpt`: the settings of an excerpt. -/

namespace RvBackend.Settings

open Toml (Key Value)

/-! ### What is written -/

theorem basicBody_escapeChar (c : Char) {body cs : List Char} (h : BasicBody body cs) :
    BasicBody (escapeChar c ++ body) (c :: cs) := by
  have hhex : ∀ n < 0x80, n < 0x20 ∨ n = 0x7f →
      Text.readDigits 16 0 ['0', '0', Text.upperHexDigit (n / 16), Text.upperHexDigit (n % 16)] =
        some n := by
    decide
  unfold escapeChar
  split
  case h_8 hbackslash hquote _ _ _ _ _ =>
    split_ifs with hcontrol
    · have hcases : c.toNat < 0x20 ∨ c.toNat = 0x7f := by simpa using hcontrol
      exact .unicode (.inl ⟨rfl, rfl⟩) (hhex c.toNat (by omega) hcases) h
    · have hplain : IsPlain c := by
        simp at hcontrol
        exact .inr ⟨by omega, hcontrol.2⟩
      exact .plain hplain hquote hbackslash h
  all_goals exact .escape (by decide) h

theorem quoted_quoteText (s : String) : Quoted (quoteText s).toList s := by
  have hany : s.any needsEscape = s.toList.any needsEscape := String.contains_bool_eq
  have hbody : ∀ cs : List Char, BasicBody (cs.flatMap escapeChar) cs := by
    intro cs
    induction cs with
    | nil => exact .nil
    | cons c cs ih =>
      rw [List.flatMap_cons]
      exact basicBody_escapeChar c ih
  rw [quoteText, hany]
  split_ifs with hescape
  · have htoList : ("\"" ++ String.ofList (s.toList.flatMap escapeChar) ++ "\"").toList =
        '"' :: (s.toList.flatMap escapeChar ++ ['"']) := by simp
    rw [htoList]
    exact .basic (hbody s.toList)
  · have htoList : ("'" ++ s ++ "'").toList = '\'' :: (s.toList ++ ['\'']) := by simp
    rw [htoList]
    refine .literal fun c hc => ?_
    have hplain : needsEscape c = false := by
      simp only [List.any_eq_true, not_exists, not_and, Bool.not_eq_true] at hescape
      exact hescape c hc
    simp [needsEscape] at hplain
    refine ⟨?_, hplain.1.1⟩
    by_cases htab : c = '\t'
    · exact .inl htab
    · exact .inr ⟨by by_contra hlow; exact htab (hplain.1.2 (by omega)), hplain.2⟩

/-- A value as it is written. -/
def Content.written : Content → String
  | .number n => Text.decimal n.toInt
  | .text s => quoteText s
  | .texts ss => quoteTexts ss

theorem denotes_written (v : Content) : Denotes v.written.toList v := by
  cases v with
  | number n =>
    rw [Content.written, Text.decimal, String.toList_ofList]
    exact .number n
  | text s => exact .text (quoted_quoteText s)
  | texts ss =>
    have hitems : List.Forall₂ Quoted (ss.map fun s => (quoteText s).toList) ss :=
      List.forall₂_map_left_iff.mpr (List.forall₂_same.mpr fun s _ => quoted_quoteText s)
    have hjoin : (", ".intercalate (ss.map quoteText)).toList =
        Text.joinWith [',', ' '] (ss.map fun s => (quoteText s).toList) := by
      clear hitems
      induction ss with
      | nil => rfl
      | cons s ss ih =>
        cases ss with
        | nil => simp [Text.joinWith]
        | cons s' ss =>
          rw [List.map_cons, List.map_cons] at ih ⊢
          rw [String.intercalate_cons_cons, String.toList_append, String.toList_append, ih]
          rfl
    have htoList : (quoteTexts ss).toList =
        '[' :: (Text.joinWith [',', ' '] (ss.map fun s => (quoteText s).toList) ++ [']']) := by
      rw [← hjoin, quoteTexts]
      simp
    rw [Content.written, htoList]
    exact .texts hitems

/-- A line as it is written. -/
def Line.text : Line → List Char
  | .blank => []
  | .header g => '[' :: ((groupName g).toList ++ [']'])
  | .entry f v => f.key.toList ++ ' ' :: '=' :: ' ' :: v.written.toList

theorem written_text (l : Line) : l.Written l.text := by
  cases l with
  | blank => exact .blank
  | header g => exact .header g
  | entry f v => exact .entry (denotes_written v)

/-- The document of settings. -/
def outline (c : Settings) : List Line :=
  let entries (fs : List Field) : List Line := fs.map fun f => .entry f (c.content f)
  .header .abi :: entries [.frameSize, .slotSize, .argRegisters, .overflowRegisters, .printHelper,
      .readHelper, .entry] ++
    .blank :: .header .output :: entries [.extension, .dir] ++
    .blank :: .header .toolchain :: entries [.compiler, .flags, .runner]

theorem toList_fieldLine (f : Field) (v : Content) :
    (fieldLine f.key v.written).toList = (Line.entry f v).text ++ ['\n'] := by
  simp [fieldLine, Line.text]

theorem toList_text (c : Settings) : c.text.toList = joinLines (c.outline.map Line.text) := by
  have hline := fun f => toList_fieldLine f (c.content f)
  have habi : "[abi]\n".toList = (Line.header .abi).text ++ ['\n'] := rfl
  have houtput : "\n[output]\n".toList =
      Line.blank.text ++ ['\n'] ++ ((Line.header .output).text ++ ['\n']) := rfl
  have htoolchain : "\n[toolchain]\n".toList =
      Line.blank.text ++ ['\n'] ++ ((Line.header .toolchain).text ++ ['\n']) := rfl
  unfold text outline
  simp only [String.toList_append, habi, houtput, htoolchain, List.map_cons, List.map_nil,
    List.cons_append, List.nil_append, joinLines, List.flatMap_cons, List.flatMap_nil, ← hline]
  simp only [Field.key, content, Content.written, List.append_assoc, List.append_nil]

theorem mem_outline {c : Settings} {f : Field} {v : Content} :
    .entry f v ∈ c.outline ↔ v = c.content f := by
  constructor
  · intro hmem
    simp only [outline, List.map_cons, List.map_nil, List.cons_append, List.nil_append,
      List.mem_cons, List.not_mem_nil, reduceCtorEq, Line.entry.injEq, false_or, or_false] at hmem
    rcases hmem with ⟨rfl, rfl⟩ | ⟨rfl, rfl⟩ | ⟨rfl, rfl⟩ | ⟨rfl, rfl⟩ | ⟨rfl, rfl⟩ | ⟨rfl, rfl⟩ |
      ⟨rfl, rfl⟩ | ⟨rfl, rfl⟩ | ⟨rfl, rfl⟩ | ⟨rfl, rfl⟩ | ⟨rfl, rfl⟩ | ⟨rfl, rfl⟩ <;> rfl
  · rintro rfl
    cases f <;> simp [outline]

theorem wellFormed_outline (c : Settings) : WellFormed c.outline where
  headers := by
    show [SettingGroup.abi, .output, .toolchain].Nodup
    decide
  fields := by
    show allFields.Nodup
    decide
  under := by simp [outline, UnderHeaders, Field.group]
  fits f v hmem := by rw [mem_outline.mp hmem, kind_content]

theorem library_writes : library.Writes := by
  intro c
  refine ⟨c.outline, wellFormed_outline c, fun _ _ => mem_outline, c.outline.map Line.text, ?_,
    toList_text c⟩
  exact List.forall₂_map_right_iff.mpr (List.forall₂_same.mpr fun l _ => written_text l)

/-! ### Where keys lead -/

theorem lower_groupName (g : SettingGroup) : Text.lower (groupName g) = groupName g := by
  cases g <;> exact Text.map_eq_self (by decide)

theorem lower_key (f : Field) : Text.lower f.key = f.key := by
  cases f <;> exact Text.map_eq_self (by decide)

theorem groupOfName?_groupName (g : SettingGroup) : groupOfName? (groupName g) = some g := by
  cases g <;> rfl

theorem place_group (g : SettingGroup) : place [groupName g] = .group g := by
  rw [place, lower_groupName, groupOfName?_groupName]

theorem place_field (f : Field) : place [groupName f.group, f.key] = .field f := by
  have hlookup : (fieldsOf f.group).lookup f.key = some f := by cases f <;> decide
  rw [place, lower_groupName, groupOfName?_groupName]
  simp only [lower_key, hlookup, List.isEmpty_nil, if_true]

/-! ### Values of keys -/

theorem readSign_decimalChars (n : ℤ) :
    (Text.readSign (Text.decimalChars n)).2 = Text.digitsOf 10 n.natAbs := by
  cases n with
  | ofNat n =>
    rw [Text.decimalChars, Text.readSign_digitsOf]
    rfl
  | negSucc n => rfl

theorem underscore_notMem_decimalChars (n : ℤ) : '_' ∉ Text.decimalChars n :=
  fun h => absurd (Text.mem_decimalChars h) (by decide)

theorem dropUnderscores_decimalChars (n : ℤ) :
    dropUnderscores (Text.decimalChars n) = some (Text.decimalChars n) := by
  have hmem := underscore_notMem_decimalChars n
  have hbody : '_' ∉ Text.digitsOf 10 n.natAbs :=
    fun h => absurd (Text.mem_digitsOf h) (by decide)
  have hfilter : (Text.decimalChars n).filter (· != '_') = Text.decimalChars n :=
    List.filter_eq_self.mpr fun c hc => bne_iff_ne.mpr fun heq => hmem (heq ▸ hc)
  rw [dropUnderscores, readSign_decimalChars]
  refine (if_neg fun h => ?_).trans (congrArg some hfilter)
  simp only [Bool.or_eq_true, beq_iff_eq, List.any_eq_true, Bool.and_eq_true] at h
  obtain (h | h) | ⟨⟨a, b⟩, hab, rfl, -⟩ := h
  · exact hbody (List.mem_of_head? h)
  · exact hbody (List.mem_of_getLast? h)
  · exact hmem (List.of_mem_zip hab).1

theorem decimalValue_decimalChars {n : ℤ} (h : Text.inWord 64 n = true) :
    decimalValue (Text.decimalChars n) = some n := by
  have hread := Text.readInt64_decimalChars h
  rw [decimalValue, readSign_decimalChars]
  split
  · next heq =>
    -- two digits with a zero in front: only zero begins with a zero, and it has one digit
    by_cases hn : n.natAbs = 0
    · have hone : (Text.digitsOf 10 0).length = 1 := by
        rw [Text.digitsOf]
        rfl
      rw [hn] at heq
      rw [show Text.digitsOf 10 0 = _ from heq] at hone
      simp at hone
    · have hzero := Text.head?_digitsOf hn
      rw [show Text.digitsOf 10 n.natAbs = _ from heq] at hzero
      exact absurd rfl hzero
  · exact hread

theorem integerValue_decimalChars {n : ℤ} (h : Text.inWord 64 n = true) :
    integerValue (Text.decimalChars n) = some n := by
  have hdrop := dropUnderscores_decimalChars n
  have hvalue := decimalValue_decimalChars h
  have hchars : ∀ x ∈ ['x', 'o', 'b'], x ∉ Text.decimalChars n :=
    fun x hx hmem => absurd hx ((by decide : ∀ c ∈ ['-', '0', '1', '2', '3', '4', '5', '6', '7',
      '8', '9'], c ∉ ['x', 'o', 'b']) x (Text.mem_decimalChars hmem))
  rw [integerValue, hdrop, Option.bind_some, hvalue]
  · intro d ds heq
    exact hchars 'x' (by decide) (by rw [heq]; simp)
  · intro d ds heq
    exact hchars 'o' (by decide) (by rw [heq]; simp)
  · intro d ds heq
    exact hchars 'b' (by decide) (by rw [heq]; simp)

/-- A number of 64 bits is read back. -/
theorem asInteger_number (n : Int64) : asInteger (Content.number n).value = .ok n := by
  have hword : Text.inWord 64 n.toInt = true := by
    have hle := Int64.le_toInt n
    have hlt := Int64.toInt_lt n
    have hcount : (Text.wordCount (64 - 1) : ℤ) = 2 ^ 63 := by decide
    rw [Text.inWord, hcount, Bool.and_eq_true, decide_eq_true_eq, decide_eq_true_eq]
    omega
  rw [Content.value, asInteger, integerValue_decimalChars hword]
  show Except.ok (Int64.ofInt n.toInt) = _
  rw [Int64.ofInt_toInt]

theorem asTexts_texts (ss : List String) : asTexts (Content.texts ss).value = .ok ss := by
  rw [Content.value, asTexts]
  induction ss with
  | nil => rfl
  | cons s ss ih =>
    rw [List.map_cons, List.mapM_cons, ih]
    rfl

/-- The value of a key takes the place of the old one. -/
theorem setField_value {f : Field} {v : Content} (h : v.kind = f.kind) (s : Settings) :
    s.setField f v.value = .ok (s.put f v) := by
  cases v with
  | number n =>
    have hvalue := asInteger_number n
    cases f <;> first | exact congrArg (Except.map _) hvalue | cases h
  | text t => cases f <;> first | rfl | cases h
  | texts ts =>
    have hvalue := asTexts_texts ts
    cases f <;> first | exact congrArg (Except.map _) hvalue | cases h

theorem assign_value {f : Field} {v : Content} (h : v.kind = f.kind) (s : Settings) :
    s.assign [groupName f.group, f.key] v.value = .ok (s.put f v) := by
  have hplain : s.assign [groupName f.group, f.key] v.value =
      s.assignPlain [groupName f.group, f.key] v.value := by
    cases v <;> rfl
  rw [hplain, assignPlain, place_field]
  exact setField_value h s

theorem isConsistent_value (v : Content) : v.value.isConsistent = true := by
  cases v with
  | number n => rfl
  | text s => rfl
  | texts ss =>
    show Toml.areConsistent (ss.map .text) = true
    induction ss with
    | nil => rfl
    | cons s ss ih => exact ih

/-! ### Reading line by line -/

/-- The groups and keys of the lines that have been read, and the group that keys now belong to. -/
structure Reached (groups : List SettingGroup) (fields : List Field)
    (current : Option SettingGroup) (r : Reading) : Prop where
  /-- Nothing but these groups and keys is known. -/
  known : ∀ mark ∈ r.tracker.marks, (∃ g ∈ groups, mark.1 = [groupName g]) ∨
    ∃ f ∈ fields, mark.1 = [groupName f.group, f.key]
  skipping : r.skipping = false
  current : ∀ g, current = some g → r.tracker.current = [groupName g]

theorem find?_eq_none {t : Toml.Tracker} {key : Key} (h : ∀ mark ∈ t.marks, mark.1 ≠ key) :
    t.find? key = none :=
  List.lookup_eq_none_iff.mpr fun mark hmark => bne_iff_ne.mpr (h mark hmark).symm

theorem mem_marks_put {t : Toml.Tracker} {key : Key} {m : Toml.Mark} {mark : Key × Toml.Mark}
    (h : mark ∈ (t.put key m).marks) : mark.1 = key ∨ mark ∈ t.marks := by
  rcases List.mem_cons.mp h with rfl | hold
  · exact .inl rfl
  · exact .inr (List.mem_filter.mp hold).1

/-- A header closes tables, but makes no key known. -/
theorem mem_marks_close {t : Toml.Tracker} {mark : Key × Toml.Mark} (h : mark ∈ t.close.marks) :
    ∃ old ∈ t.marks, old.1 = mark.1 := by
  obtain ⟨⟨key, m⟩, hold, rfl⟩ := List.mem_map.mp h
  exact ⟨(key, m), hold, rfl⟩

theorem groupName_injective {g g' : SettingGroup} (h : groupName g = groupName g') : g = g' := by
  have hgroup := congrArg groupOfName? h
  rw [groupOfName?_groupName, groupOfName?_groupName] at hgroup
  exact Option.some.inj hgroup

theorem key_injective {f f' : Field} (h : f.key = f'.key) : f = f' := by
  have hfield := congrArg (fun key => fieldOfKey? key.toList) h
  simp only [fieldOfKey?_key] at hfield
  exact Option.some.inj hfield

section

variable {groups : List SettingGroup} {fields : List Field} {current : Option SettingGroup}
  {r : Reading}

/-- The header of a group that had none. -/
theorem Reached.header (h : Reached groups fields current r) {g : SettingGroup} (hg : g ∉ groups) :
    ∃ r', r.step (.table [⟨groupName g, false⟩]) = .ok r' ∧ r'.settings = r.settings ∧
      Reached (g :: groups) fields (some g) r' := by
  have hkey : Toml.keyOf [⟨groupName g, false⟩] = [groupName g] := rfl
  have hclosed : ∀ mark ∈ r.tracker.close.marks, (∃ g ∈ groups, mark.1 = [groupName g]) ∨
      ∃ f ∈ fields, mark.1 = [groupName f.group, f.key] := by
    intro mark hmark
    obtain ⟨old, hold, heq⟩ := mem_marks_close hmark
    exact heq ▸ h.known old hold
  have hfind : r.tracker.close.find? [groupName g] = none := by
    refine find?_eq_none fun mark hmark heq => ?_
    obtain ⟨g', hg', hmark⟩ | ⟨f, -, hmark⟩ := hclosed mark hmark
    · rw [heq] at hmark
      exact hg (groupName_injective (List.cons.inj hmark).1 ▸ hg')
    · exact absurd (congrArg List.length (heq.symm.trans hmark)) (by simp)
  have htable : r.tracker.table [groupName g] = some
      { r.tracker.close.put [groupName g] { role := .table, closed := true } with
        current := [groupName g] } := by
    rw [Toml.Tracker.table, List.dropLast_singleton, Toml.Tracker.open?, Option.bind_eq_bind,
      Option.bind_some, hfind]
    rfl
  have henter : r.settings.enterTable [⟨groupName g, false⟩] = .ok () := by
    rw [enterTable, hkey, place_group]
  refine ⟨{ r with
    tracker := { r.tracker.close.put [groupName g] { role := .table, closed := true } with
      current := [groupName g] }
    skipping := decide (place [groupName g] = .unknown) }, ?_, rfl, ?_, ?_, ?_⟩
  · simp only [Reading.step, hkey, htable]
    show (r.settings.enterTable [⟨groupName g, false⟩]).bind _ = _
    rw [henter]
    rfl
  · intro mark hmark
    obtain hnew | hold := mem_marks_put hmark
    · exact .inl ⟨g, List.mem_cons_self, hnew⟩
    · exact (hclosed mark hold).imp_left fun ⟨g', hg', heq⟩ =>
        ⟨g', List.mem_cons_of_mem _ hg', heq⟩
  · rw [place_group]
    rfl
  · rintro _ ⟨⟩
    rfl

/-- A key that had no value, under the header of its group. -/
theorem Reached.entry (h : Reached groups fields current r) {f : Field} {v : Content}
    (hf : f ∉ fields) (hgroup : current = some f.group) (hv : v.kind = f.kind) :
    ∃ r', r.step (.assign [f.key] v.value) = .ok r' ∧ r'.settings = r.settings.put f v ∧
      Reached groups (f :: fields) current r' := by
  have hcurrent := h.current _ hgroup
  have hfind : r.tracker.find? [groupName f.group, f.key] = none := by
    refine find?_eq_none fun mark hmark heq => ?_
    obtain ⟨g, -, hmark⟩ | ⟨f', hf', hmark⟩ := h.known mark hmark
    · exact absurd (congrArg List.length (heq.symm.trans hmark)) (by simp)
    · have hkey := heq.symm.trans hmark
      exact hf (key_injective (List.cons.inj (List.cons.inj hkey).2).1 ▸ hf')
  have htracker : r.tracker.assign [f.key] =
      some (r.tracker.put [groupName f.group, f.key] { role := .value, byKey := true }) := by
    rw [Toml.Tracker.assign, hcurrent, Toml.Tracker.walk, List.singleton_append, hfind]
  refine ⟨{ r with
    settings := r.settings.put f v
    tracker := r.tracker.put [groupName f.group, f.key] { role := .value, byKey := true } },
    ?_, rfl, ?_, h.skipping, h.current⟩
  · simp only [Reading.step, h.skipping, htracker, isConsistent_value, hcurrent]
    show (r.settings.assign [groupName f.group, f.key] v.value).bind _ = _
    rw [assign_value hv]
    rfl
  · intro mark hmark
    obtain hnew | hold := mem_marks_put hmark
    · exact .inr ⟨f, List.mem_cons_self, hnew⟩
    · exact (h.known mark hold).imp_right fun ⟨f', hf', heq⟩ =>
        ⟨f', List.mem_cons_of_mem _ hf', heq⟩

/-- **The lines of a document one after the other** put their values in place. -/
theorem Reached.run {doc : List Line} (h : Reached groups fields current r)
    (hheaders : (doc.filterMap Line.header?).Nodup)
    (hgroups : ∀ g ∈ doc.filterMap Line.header?, g ∉ groups)
    (hentries : (doc.filterMap Line.field?).Nodup)
    (hfields : ∀ f ∈ doc.filterMap Line.field?, f ∉ fields) (hunder : UnderHeaders current doc)
    (hfits : ∀ f v, .entry f v ∈ doc → v.kind = f.kind) :
    ∃ r', (doc.filterMap Line.expression?).foldlM Reading.step r = .ok r' ∧
      r'.settings = r.settings.fill doc := by
  induction doc generalizing groups fields current r with
  | nil => exact ⟨r, rfl, rfl⟩
  | cons l doc ih =>
    have hrest : ∀ f v, .entry f v ∈ doc → v.kind = f.kind :=
      fun f v hmem => hfits f v (List.mem_cons_of_mem _ hmem)
    cases l with
    | blank => exact ih h hheaders hgroups hentries hfields hunder hrest
    | header g =>
      rw [List.filterMap_cons_some (by rfl : (Line.header g).header? = some g)] at hheaders hgroups
      obtain ⟨hfirst, hheaders⟩ := List.nodup_cons.mp hheaders
      obtain ⟨hg, hgroups⟩ := List.forall_mem_cons.mp hgroups
      obtain ⟨r', hstep, hsettings, h'⟩ := h.header hg
      have hlater : ∀ g' ∈ doc.filterMap Line.header?, g' ∉ g :: groups := fun g' hg' =>
        List.not_mem_cons_of_ne_of_not_mem (fun heq => hfirst (heq ▸ hg')) (hgroups g' hg')
      obtain ⟨r'', hrun, hfill⟩ := ih h' hheaders hlater hentries hfields hunder hrest
      refine ⟨r'', ?_, ?_⟩
      · rw [List.filterMap_cons_some (by rfl : (Line.header g).expression? = some _),
          List.foldlM_cons, hstep]
        exact hrun
      · rw [hfill, hsettings]
        rfl
    | entry f v =>
      rw [List.filterMap_cons_some (by rfl : (Line.entry f v).field? = some f)]
        at hentries hfields
      obtain ⟨hfirst, hentries⟩ := List.nodup_cons.mp hentries
      obtain ⟨hf, hfields⟩ := List.forall_mem_cons.mp hfields
      obtain ⟨r', hstep, hsettings, h'⟩ := h.entry hf hunder.1 (hfits f v List.mem_cons_self)
      have hlater : ∀ f' ∈ doc.filterMap Line.field?, f' ∉ f :: fields := fun f' hf' =>
        List.not_mem_cons_of_ne_of_not_mem (fun heq => hfirst (heq ▸ hf')) (hfields f' hf')
      obtain ⟨r'', hrun, hfill⟩ := ih h' hheaders hgroups hentries hlater hunder.2 hrest
      refine ⟨r'', ?_, ?_⟩
      · rw [List.filterMap_cons_some (by rfl : (Line.entry f v).expression? = some _),
          List.foldlM_cons, hstep]
        exact hrun
      · rw [hfill, hsettings]
        rfl

end

/-! ### Files -/

theorem library_reads : library.Reads := by
  rintro doc text base hdoc ⟨ls, hls, htext⟩
  have hstart : Reached [] [] none { settings := base } :=
    ⟨fun mark hmark => absurd hmark List.not_mem_nil, rfl, nofun⟩
  obtain ⟨r, hrun, hfill⟩ := hstart.run hdoc.headers (fun _ _ => List.not_mem_nil) hdoc.fields
    (fun _ _ => List.not_mem_nil) hdoc.under hdoc.fits
  show parse base (Text.charsOfBytes (Text.utf8 text)) = _
  rw [Text.charsOfBytes_utf8, htext, parse, (lines_written hls).parse, hrun]
  exact congrArg Except.ok hfill

theorem load_of_read {lib : Library} {bytes : List UInt8} {s : Settings}
    (h : lib.read bytes {} = .ok s) (hs : s.problems = []) : lib.load bytes = .ok s := by
  rw [Library.load, h]
  show (if s.problems.isEmpty then _ else _) = _
  rw [hs]
  rfl

/-- **A file with some keys replaces the values of these keys and no others**, and a file with all
keys gives back the settings that it was written from. The file is that of any library which writes
and reads documents as it should. -/
theorem load_excerpt {lib : Library} (hwrites : lib.Writes) (hreads : lib.Reads) {c : Settings}
    (hc : c.problems = []) (blanks : Bool) (keep : Field → Bool)
    (h : (replace keep c {}).problems = []) :
    lib.load (Text.utf8 (excerpt blanks keep (lib.write c))) = .ok (replace keep c {}) ∧
      lib.load (Text.utf8 (lib.write c)) = .ok c := by
  obtain ⟨doc, hdoc, hentries, htext⟩ := hwrites c
  constructor
  · have hread := hreads _ _ {} (hdoc.filter blanks keep) (isText_excerpt htext blanks keep)
    rw [fill_filter hdoc hentries] at hread
    exact load_of_read hread h
  · have hread := hreads _ _ {} hdoc htext
    have hall := fill_filter hdoc hentries true (fun _ => true) {}
    rw [List.filter_eq_self.mpr fun l _ => by cases l <;> rfl, replace_all] at hall
    rw [hall] at hread
    exact load_of_read hread hc

/-- Settings with texts that need quotes of both kinds. -/
def quaint : Settings where
  abi :=
    { frameSize := 2032
      slotSize := 12
      argRegisters := ["", "a'b", "[c]"]
      overflowRegisters := []
      entry := "\"\\ # \t'\x7f\r\n = λ" }
  output := { extension := "''", dir := "" }
  toolchain := { compiler := "'", flags := ["x, y", "\n"], runner := ["]"] }

/-- An excerpt with the argument registers, the entry and the runner. -/
theorem quaint_loaded :
    library.Writes ∧ library.Reads ∧ quaint.problems = [] ∧
    (replace (· ∈ [.argRegisters, .entry, .runner]) quaint {}).problems = [] ∧
    library.load (Text.utf8 (excerpt false (· ∈ [.argRegisters, .entry, .runner])
      (library.write quaint))) =
        .ok (replace (· ∈ [.argRegisters, .entry, .runner]) quaint {}) ∧
    library.load (Text.utf8 (library.write quaint)) = .ok quaint :=
  have hquaint : quaint.problems = [] := by decide +kernel
  have hkept : (replace (· ∈ [.argRegisters, .entry, .runner]) quaint {}).problems = [] := by
    decide +kernel
  ⟨library_writes, library_reads, hquaint, hkept,
    load_excerpt library_writes library_reads hquaint false _ hkept⟩

end RvBackend.Settings
