import RvBackend.Proofs.Tree.Members

/-! # Scopes of nodes

The entries of a scope come from a member whose name is compared without regard to case, but whether
there is a scope at all is decided by the exact name. So a scope under another spelling of the name
is dropped, and all other scopes are kept: the table has an entry for each item of the last scope
member, in order.

* `Json.Declares`: an entry is what an item says it is.
* `Json.KeepsScope`: what has become of the scope of an object.
* `scopes_kept_iff`: the scopes that are kept. -/

namespace RvBackend

/-! ### Entries and items -/

/-- The integer that a value is. -/
def Json.integer? : Json → Option ℤ
  | .number digits => Text.readInt64 digits.toList
  | _ => none

/-- The last integer under a name. -/
def Json.integerUnder? (name : String) (v : Json) : Option ℤ :=
  ((v.under name).filterMap Json.integer?).getLast?

/-- An entry is what an item says, wherever the item says something. -/
structure Json.Declares (v : Json) (e : Entry) : Prop where
  name : ∀ s, v.textUnder? "name" = some s → e.name = s
  kind : ∀ s, v.textUnder? "kind" = some s → e.kind.text = s
  type : ∀ s, v.textUnder? "type" = some s → Ty.parse s = .ok e.type
  level : ∀ n, v.integerUnder? "level" = some n → e.level = n
  value : ∀ w, v.valueUnder? "value" = some w → e.kind = .constant → e.value = w.integer?

/-- An integer is read, or left as it is. -/
theorem readInteger_eq_ok {old n : ℤ} {v : Json} (h : readInteger old v = .ok n) :
    v.integer? = some n ∨ v.isNull ∧ n = old := by
  unfold readInteger at h
  split at h
  · next digits =>
    rw [Json.integer?]
    cases hdigits : Text.readInt64 digits.toList with
    | none => rw [hdigits] at h; cases h
    | some m => rw [hdigits] at h; cases h; exact .inl rfl
  · cases h
    exact .inr ⟨rfl, rfl⟩
  · cases h

theorem integer?_of_isNull {v : Json} (h : v.isNull) : v.integer? = none := by
  cases v with
  | null => rfl
  | _ => cases h

theorem integer_of_readInteger {old n : ℤ} {v : Json} (h : readInteger old v = .ok n) :
    n = v.integer?.getD old := by
  rcases readInteger_eq_ok h with hinteger | ⟨hnull, hn⟩
  · rw [hinteger]
    rfl
  · rw [integer?_of_isNull hnull]
    exact hn

/-- What one member does to the fields of an entry. -/
theorem EntryFields.set_eq_ok {e e' : EntryFields} {name : String} {v : Json}
    (h : e.set name v = .ok e') :
    e'.name = (if name = "name" then v.text?.getD e.name else e.name) ∧
    e'.kind = (if name = "kind" then v.text?.getD e.kind else e.kind) ∧
    e'.type = (if name = "type" then v.text?.getD e.type else e.type) ∧
    e'.level = (if name = "level" then v.integer?.getD e.level else e.level) ∧
    e'.value = (if name = "value" then v.integer? else e.value) := by
  unfold EntryFields.set at h
  split at h
  case h_5 =>
    split at h
    · next hnull =>
      cases h
      simp [integer?_of_isNull hnull]
    · next hnull =>
      simp only [ok_bind_iff, ok_pure_iff] at h
      obtain ⟨n, hn, rfl⟩ := h
      rcases readInteger_eq_ok hn with hinteger | ⟨hnull', -⟩
      · simp [hinteger]
      · exact absurd hnull' hnull
  all_goals
    simp only [ok_bind_iff, ok_pure_iff] at h
    grind [text_of_readText, integer_of_readInteger]

section

variable {v : Json} {old e : EntryFields} (h : readMembers EntryFields.set old v = .ok e)

include h

theorem EntryFields.name_of_readMembers : e.name = (v.textUnder? "name").getD old.name :=
  (foldl_of_readMembers (fun hset => (EntryFields.set_eq_ok hset).1) h).trans (foldl_getD _ _ _)

theorem EntryFields.kind_of_readMembers : e.kind = (v.textUnder? "kind").getD old.kind :=
  (foldl_of_readMembers (fun hset => (EntryFields.set_eq_ok hset).2.1) h).trans (foldl_getD _ _ _)

theorem EntryFields.type_of_readMembers : e.type = (v.textUnder? "type").getD old.type :=
  (foldl_of_readMembers (fun hset => (EntryFields.set_eq_ok hset).2.2.1) h).trans (foldl_getD _ _ _)

theorem EntryFields.level_of_readMembers : e.level = (v.integerUnder? "level").getD old.level :=
  (foldl_of_readMembers (fun hset => (EntryFields.set_eq_ok hset).2.2.2.1) h).trans
    (foldl_getD _ _ _)

theorem EntryFields.value_of_readMembers :
    e.value = ((v.valueUnder? "value").map Json.integer?).getD old.value :=
  (foldl_of_readMembers (fun hset => (EntryFields.set_eq_ok hset).2.2.2.2) h).trans
    (foldl_last Json.integer? _ _)

end

/-- What an entry is made of. -/
theorem entry_eq_ok {fields : EntryFields} {e : Entry} (h : fields.entry = .ok e) :
    e.name = fields.name ∧ e.level = fields.level ∧ e.kind.text = fields.kind ∧
      Ty.parse fields.type = .ok e.type ∧
      (e.kind = .constant → e.value = fields.value) := by
  simp only [EntryFields.entry, ok_bind_iff] at h
  obtain ⟨type, htype, h⟩ := h
  have hparse : Ty.parse fields.type = .ok type := by
    cases hparse : Ty.parse fields.type with
    | error t => rw [hparse] at htype; cases htype
    | ok t => rw [hparse] at htype; cases htype; rfl
  split at h
  · next hkind => cases h; exact ⟨rfl, rfl, hkind.symm, hparse, fun hconstant => by cases hconstant⟩
  · next hkind => cases h; exact ⟨rfl, rfl, hkind.symm, hparse, fun hconstant => by cases hconstant⟩
  · next hkind =>
    split at h
    · cases h
    · next hvalue => cases h; exact ⟨rfl, rfl, hkind.symm, hparse, fun _ => hvalue.symm⟩
  · cases h

/-- An entry that was made from the fields of an item is what the item says. -/
theorem declares_of_entry {v : Json} {old fields : EntryFields} {e : Entry}
    (h : readMembers EntryFields.set old v = .ok fields) (he : fields.entry = .ok e) :
    v.Declares e := by
  obtain ⟨hname, hlevel, hkind, htype, hvalue⟩ := entry_eq_ok he
  refine ⟨fun s hs => ?_, fun s hs => ?_, fun s hs => ?_, fun n hn => ?_, fun w hw hconstant => ?_⟩
  · rw [hname, EntryFields.name_of_readMembers h, hs, Option.getD_some]
  · rw [hkind, EntryFields.kind_of_readMembers h, hs, Option.getD_some]
  · rw [← htype, EntryFields.type_of_readMembers h, hs, Option.getD_some]
  · rw [hlevel, EntryFields.level_of_readMembers h, hn, Option.getD_some]
  · rw [hvalue hconstant, EntryFields.value_of_readMembers h, hw]
    rfl

/-! ### The entries of a scope -/

theorem forall₂_of_mapM {ε α β γ : Type} {f : α → Except ε β} {R : γ → α → Prop} {S : γ → β → Prop}
    (hf : ∀ c a b, R c a → f a = .ok b → S c b) {cs : List γ} {as : List α} {bs : List β}
    (hR : List.Forall₂ R cs as) (h : as.mapM f = .ok bs) : List.Forall₂ S cs bs := by
  induction hR generalizing bs with
  | nil =>
    cases h
    exact .nil
  | cons hca _ ih =>
    rw [List.mapM_cons] at h
    simp only [ok_bind_iff, ok_pure_iff] at h
    obtain ⟨b, hb, bs', hbs', rfl⟩ := h
    exact .cons (hf _ _ _ hca hb) (ih hbs')

/-- The entries of a scope are read one by one from its items. -/
theorem forall₂_of_update {store store' : List EntryFields} {items : List Json}
    (h : ScopeField.update store items = .ok store') :
    List.Forall₂ (fun v fields => ∃ old, readMembers EntryFields.set old v = .ok fields) items
      (store'.take items.length) := by
  induction items generalizing store store' with
  | nil => exact .nil
  | cons v items ih =>
    cases store with
    | nil =>
      simp only [ScopeField.update, ok_bind_iff, ok_pure_iff] at h
      obtain ⟨e, he, es, hes, rfl⟩ := h
      exact .cons ⟨_, he⟩ (ih hes)
    | cons old store =>
      simp only [ScopeField.update, ok_bind_iff, ok_pure_iff] at h
      obtain ⟨e, he, es, hes, rfl⟩ := h
      exact .cons ⟨_, he⟩ (ih hes)

/-- Whatever the scope was before, after a member it has one entry for each item of the member's
value. -/
theorem forall₂_of_read {s s' : ScopeField} {v : Json} (h : s.read v = .ok s') :
    List.Forall₂ (fun v fields => ∃ old, readMembers EntryFields.set old v = .ok fields) v.items
      s'.entries := by
  unfold ScopeField.read at h
  split at h
  · cases h
    exact .nil
  · cases h
    exact .nil
  · simp only [ok_bind_iff, ok_pure_iff] at h
    obtain ⟨store, hstore, rfl⟩ := h
    exact forall₂_of_update hstore
  · cases h

theorem foldlM_concat_eq_ok {α β : Type} {f : α → β → Reading α} {bs : List β} {b : β}
    {first last : α} (h : (bs ++ [b]).foldlM f first = .ok last) : ∃ a, f a b = .ok last := by
  rw [List.foldlM_append, ok_bind_iff] at h
  obtain ⟨a, -, h⟩ := h
  rw [List.foldlM_cons, ok_bind_iff] at h
  obtain ⟨a', ha, h⟩ := h
  cases h
  exact ⟨a, ha⟩

/-- The scope of an object comes from its last scope member. -/
theorem forall₂_of_ofMembers {members : List Member} {f : Fields}
    (h : Fields.ofMembers {} members = .ok f) {v : Json}
    (hv : (Json.object members).valueUnder? "scope" = some v) :
    List.Forall₂ (fun v fields => ∃ old, readMembers EntryFields.set old v = .ok fields) v.items
      f.scope.entries := by
  have hscope := Fields.get_of_ofMembers h .scope
  rw [Json.valueUnder?, under_object, List.getLast?_map, Option.map_eq_some_iff] at hv
  obtain ⟨m, hm, rfl⟩ := hv
  obtain ⟨before, hbefore⟩ := List.getLast?_eq_some_iff.mp hm
  have hkey : Fields.Part.key .scope = "scope" := rfl
  rw [hkey, hbefore] at hscope
  obtain ⟨s, hs⟩ := foldlM_concat_eq_ok hscope
  exact forall₂_of_read hs

/-! ### Scopes that are kept -/

/-- The scope of a node, if it is of a kind that has one. -/
def Node.scope? : Node → Option (Option Table)
  | .program p => some p.scope
  | .function f => some f.scope
  | .stmt (.block b) => some b.scope
  | .stmt (.count _ scope _ _ _ _) => some scope
  | _ => none

/-- The scope of an object is kept: the table has an entry for each item under the last scope
member, in order, and without such a member there is no table. -/
structure Json.KeepsScope (v : Json) (scope : Option Table) : Prop where
  present : ∀ w, v.valueUnder? "scope" = some w → ∃ t, scope = some t ∧
    List.Forall₂ Json.Declares w.items t.entries
  absent : v.valueUnder? "scope" = none → scope = none

/-- A value is an object with a member of exactly that name. -/
def Json.HasExactly (name : String) (v : Json) : Prop :=
  ∃ members, v = .object members ∧ ∃ m ∈ members, m.1 = name

theorem readScope_of_makes {f : Fields} {n : Node} {scope : Option Table} (h : f.Makes n)
    (hn : n.scope? = some scope) :
    f.readScope = .ok scope := by
  cases h <;> cases hn <;> assumption

section

variable {members : List Member} {f : Fields} {scope : Option Table}
  (hf : Fields.ofMembers {} members = .ok f) (hscope : f.readScope = .ok scope)

include hf

theorem hasScope_iff : f.hasScope ↔ (Json.object members).HasExactly "scope" := by
  rw [Fields.hasScope_of_ofMembers hf, Bool.false_or, List.any_eq_true]
  constructor
  · rintro ⟨m, hm, hname⟩
    exact ⟨members, rfl, m, hm, eq_of_beq hname⟩
  · rintro ⟨_, heq, m, hm, hname⟩
    cases heq
    exact ⟨m, hm, beq_iff_eq.mpr hname⟩

include hscope

/-- A table that is there has been made from the last scope member. -/
theorem declares_of_readScope (hhas : f.hasScope) {v : Json}
    (hv : (Json.object members).valueUnder? "scope" = some v) :
    ∃ t, scope = some t ∧ List.Forall₂ Json.Declares v.items t.entries := by
  rw [Fields.readScope, if_pos hhas] at hscope
  cases hentries : f.scope.entries.mapM EntryFields.entry with
  | error e => rw [hentries] at hscope; cases hscope
  | ok es =>
    rw [hentries] at hscope
    cases hscope
    refine ⟨⟨es⟩, rfl, forall₂_of_mapM ?_ (forall₂_of_ofMembers hf hv) hentries⟩
    rintro v fields e ⟨old, hread⟩ he
    exact declares_of_entry hread he

/-- **A scope is kept** if it is under the exact name, and only then. -/
theorem keepsScope_iff : (Json.object members).KeepsScope scope ↔
    (Json.object members).under "scope" = [] ∨ (Json.object members).HasExactly "scope" := by
  by_cases hhas : f.hasScope
  · refine iff_of_true ⟨fun v hv => declares_of_readScope hf hscope hhas hv, fun hnone => ?_⟩
      (.inr ((hasScope_iff hf).mp hhas))
    -- the member with the exact name is one of those that are compared without regard to case
    obtain ⟨_, heq, m, hm, hname⟩ := (hasScope_iff hf).mp hhas
    cases heq
    rw [Json.valueUnder?, List.getLast?_eq_none_iff, under_object, List.map_eq_nil_iff] at hnone
    have hmem : m ∈ membersNamed "scope" members :=
      List.mem_filter.mpr ⟨hm, by rw [hname]; exact decide_eq_true fold_scope⟩
    rw [hnone] at hmem
    exact absurd hmem List.not_mem_nil
  · have hdropped : scope = none := by
      rw [Fields.readScope, if_neg hhas] at hscope
      exact (Except.ok.inj hscope).symm
    have hexact : ¬ (Json.object members).HasExactly "scope" :=
      fun hexact => hhas ((hasScope_iff hf).mpr hexact)
    rw [or_iff_left hexact, hdropped]
    constructor
    · intro hkeeps
      by_contra hunder
      obtain ⟨v, hv⟩ := Option.ne_none_iff_exists'.mp (mt List.getLast?_eq_none_iff.mp hunder)
      obtain ⟨t, ht, -⟩ := hkeeps.present v hv
      cases ht
    · intro hunder
      refine ⟨fun v hv => ?_, fun _ => rfl⟩
      rw [Json.valueUnder?, hunder] at hv
      cases hv

end

/-- **Scopes of nodes**: in a document that is accepted, each object that describes a node with a
scope has that scope kept exactly if it has no scope member at all, or one with the exact name; and
the nodes of the program are those that values of the document describe. -/
theorem scopes_kept_iff {bytes : List UInt8} {p : Program} (h : Program.decode bytes = .ok p) :
    ∃ root, Json.parse (Text.charsOfBytes bytes) = some root ∧
      (∀ v n scope, root.Within v → Node.ofJson v = .ok n → n.scope? = some scope →
        (v.KeepsScope scope ↔ v.under "scope" = [] ∨ v.HasExactly "scope")) ∧
      ∀ n, (Node.program p).Part n → ∃ v, root.Within v ∧ Node.ofJson v = .ok n := by
  obtain ⟨root, hroot, hprogram⟩ := ofJson_of_decode h
  refine ⟨root, hroot, fun v n scope _ hnode hn => ?_,
    fun n hn => exists_within_of_part hprogram hn⟩
  obtain ⟨members, f, rfl, hf, hmakes⟩ := makes_of_ofJson hnode
  exact keepsScope_iff hf (readScope_of_makes hmakes hn)

/-- A document of a program that declares one variable, its scope under some name. -/
def declaring (name : String) : List UInt8 :=
  Text.utf8 ("\x7b\"kind\": \"Program\", \"" ++ name ++
    "\": [\x7b\"name\": \"x\", \"kind\": \"variable\", " ++
    "\"type\": \"integer\", \"level\": 0\x7d]\x7d")

/-- The names that a program declares, if it has a table. -/
def declared? (p : Program) : Option (List String) := p.scope.map fun t => t.entries.map Entry.name

theorem exists_of_declared? {bytes : List UInt8} {names : Option (List String)}
    (h : (Program.decode bytes).toOption.map declared? = some names) :
    ∃ p, Program.decode bytes = .ok p ∧ declared? p = names := by
  cases hdecode : Program.decode bytes with
  | error e => rw [hdecode] at h; cases h
  | ok p => rw [hdecode] at h; exact ⟨p, rfl, Option.some.inj h⟩

theorem exact_scope_kept :
    ∃ p, Program.decode (declaring "scope") = .ok p ∧ declared? p = some ["x"] ∧
    ∃ root, Json.parse (Text.charsOfBytes (declaring "scope")) = some root ∧
      (∀ v n scope, root.Within v → Node.ofJson v = .ok n → n.scope? = some scope →
        (v.KeepsScope scope ↔ v.under "scope" = [] ∨ v.HasExactly "scope")) ∧
      ∀ n, (Node.program p).Part n → ∃ v, root.Within v ∧ Node.ofJson v = .ok n := by
  have hdeclared : (Program.decode (declaring "scope")).toOption.map declared? =
    some (some ["x"]) := by decide +kernel
  obtain ⟨p, hp, hnames⟩ := exists_of_declared? hdeclared
  exact ⟨p, hp, hnames, scopes_kept_iff hp⟩

/-- A scope under a name with a capital letter is dropped: the program is accepted and has no
table. -/
theorem capital_scope_dropped : ∃ p root, Program.decode (declaring "Scope") = .ok p ∧
    Json.parse (Text.charsOfBytes (declaring "Scope")) = some root ∧
    Node.ofJson root = .ok (.program p) ∧
    p.scope = none ∧ (root.under "scope").length = 1 ∧ ¬ root.KeepsScope p.scope := by
  have hdeclared : (Program.decode (declaring "Scope")).toOption.map declared? = some none := by
    decide +kernel
  have hlength :
      (Json.parse (Text.charsOfBytes (declaring "Scope"))).map (fun v => (v.under "scope").length) =
          some 1 := by
    decide +kernel
  obtain ⟨p, hp, hnames⟩ := exists_of_declared? hdeclared
  obtain ⟨root, hroot, hprogram⟩ := ofJson_of_decode hp
  rw [hroot] at hlength
  have hone : (root.under "scope").length = 1 := Option.some.inj hlength
  have hnone : p.scope = none := Option.map_eq_none_iff.mp hnames
  refine ⟨p, root, hp, hroot, hprogram, hnone, hone, fun hkeeps => ?_⟩
  obtain ⟨v, hv⟩ := List.length_eq_one_iff.mp hone
  obtain ⟨t, ht, -⟩ := hkeeps.present v (by rw [Json.valueUnder?, hv]; rfl)
  rw [hnone] at ht
  cases ht

end RvBackend
