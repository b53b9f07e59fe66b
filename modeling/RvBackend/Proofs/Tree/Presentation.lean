import RvBackend.Proofs.Tree.Agreement
import RvBackend.Proofs.Tree.Recovery

/-! # What does not matter in a document

The order of the members of an object, the white space between tokens, and members whose names mean
nothing do not matter for the program that a document describes, nor for whether it describes one.
Which names mean something depends on the role of an object: it is a node, a location or an entry of
a scope, or nothing of the kind.

* `Role`: what a value stands for, with the roles of its items and members.
* `Edit`: the changes that do not matter, anywhere inside a value.
* `Role.Alike`: values that are read in the same way in a role. All edits are of this kind.
* `decode_of_edits`: the texts of a document before and after edits are decoded alike. -/

namespace RvBackend

open Reading (Agree)
open Json (maxDepth)

/-! ### Roles and edits -/

/-- What a value stands for in the document of a program. -/
inductive Role where
  | node
  | nodes
  | location
  | entry
  | entries
  | plain

namespace Role

/-- The role of the items of an array. -/
def item : Role → Role
  | .nodes => .node
  | .entries => .entry
  | _ => .plain

/-- The role of what a field of a node is read from. -/
def ofPart : Fields.Part → Role
  | .text _ => .plain
  | .child _ => .node
  | .list _ => .nodes
  | .loc => .location
  | .scope => .entries

/-- The role of the member of an object that has a name. -/
def member : Role → String → Role
  | .node, name => ((Fields.Part.ofKey? (Text.fold name)).map ofPart).getD .plain
  | _, _ => .plain

/-- The name of a member means nothing to an object in this role, which is a record. -/
def Ignores (role : Role) (name : String) : Prop :=
  match role with
  | .node => Fields.Part.ofKey? (Text.fold name) = none
  | .location => Text.fold name ∉ ["line", "col"]
  | .entry => Text.fold name ∉ ["name", "kind", "type", "level", "value"]
  | _ => False

/-- No two members have names that differ in case alone, except for those that mean nothing. -/
def Distinct (role : Role) (ms : List Member) : Prop :=
  ms.Pairwise fun m n => Text.fold m.1 = Text.fold n.1 → role.Ignores m.1

theorem distinct_of_nodup {ms : List Member} (h : (ms.map fun m => Text.fold m.1).Nodup)
    (role : Role) :
    role.Distinct ms := (List.pairwise_map.mp h).imp fun hne heq => absurd heq hne

end Role

/-- A change that does not matter, of a value in a role: the members of an object in another order,
a member more whose name means nothing, or such a change inside a member or an item. -/
inductive Edit : Role → Json → Json → Prop
  | permute {role : Role} {ms ms' : List Member} (hms : role.Distinct ms) (h : ms.Perm ms') :
    Edit role (.object ms) (.object ms')
  | insert {role : Role} {before after : List Member} {m : Member} (hm : role.Ignores m.1) :
    Edit role (.object (before ++ after)) (.object (before ++ m :: after))
  | member {role : Role} {before after : List Member} {name : String} {extent : Extent}
      {v v' : Json}
    (h : Edit (role.member name) v v') :
    Edit role (.object (before ++ (name, extent, v) :: after))
      (.object (before ++ (name, extent, v') :: after))
  | item {role : Role} {before after : List Json} {v v' : Json} (h : Edit role.item v v') :
    Edit role (.array (before ++ v :: after)) (.array (before ++ v' :: after))

/-! ### Reading members in any order -/

/-- Members are read one by one so that those without a meaning change nothing and two with
different names can be exchanged. -/
structure Role.Reads {α : Type} (role : Role) (step : α → Member → Reading α) : Prop where
  ignore : ∀ (a : α) {m : Member}, role.Ignores m.1 → step a m = pure a
  swap : ∀ (a : α) {m n : Member}, Text.fold m.1 ≠ Text.fold n.1 →
    Agree Eq (step a m >>= (step · n)) (step a n >>= (step · m))

theorem Role.ignores_congr {role : Role} {name name' : String}
    (h : Text.fold name = Text.fold name') (hname : role.Ignores name) : role.Ignores name' := by
  unfold Role.Ignores at hname ⊢
  rwa [← h]

namespace Role.Reads

variable {α : Type} {role : Role} {step : α → Member → Reading α} (h : role.Reads step)

include h

theorem swap_of_distinct (a : α) {m n : Member}
    (hmn : Text.fold m.1 = Text.fold n.1 → role.Ignores m.1) :
    Agree Eq (step a m >>= (step · n)) (step a n >>= (step · m)) := by
  by_cases hname : Text.fold m.1 = Text.fold n.1
  · have hm := hmn hname
    have hn := Role.ignores_congr hname hm
    simp only [h.ignore _ hm, h.ignore _ hn, pure_bind]
    exact .refl _
  · exact h.swap a hname

/-- Members in another order are read alike. -/
theorem perm {ms ms' : List Member} (hperm : ms.Perm ms') (hms : role.Distinct ms) (a : α) :
    Agree Eq (ms.foldlM step a) (ms'.foldlM step a) := by
  induction hperm generalizing a with
  | nil => exact .refl _
  | cons m _ ih =>
    rw [List.foldlM_cons, List.foldlM_cons]
    exact Agree.bind_eq (.refl _) fun a' => ih (List.pairwise_cons.mp hms).2 a'
  | swap m n ms =>
    have hnm := (List.pairwise_cons.mp hms).1 m List.mem_cons_self
    have hswap := h.swap_of_distinct a hnm
    simp only [List.foldlM_cons, ← bind_assoc]
    exact hswap.bind_eq fun a' => .refl _
  | trans hperm _ ih ih' =>
    have hsymm : ∀ {m n : Member}, (Text.fold m.1 = Text.fold n.1 → role.Ignores m.1) →
        Text.fold n.1 = Text.fold m.1 → role.Ignores n.1 := fun hmn hname =>
      Role.ignores_congr hname.symm (hmn hname.symm)
    exact (ih hms a).trans (ih' (hperm.pairwise hms hsymm) a)

/-- A member without a meaning makes no difference. -/
theorem insert {m : Member} (hm : role.Ignores m.1) (before after : List Member) (a : α) :
    (before ++ m :: after).foldlM step a = (before ++ after).foldlM step a := by
  rw [List.foldlM_append, List.foldlM_append]
  congr 1
  funext a'
  rw [List.foldlM_cons, h.ignore a' hm, pure_bind]

end Role.Reads

/-! ### The three kinds of records -/

theorem Location.set_ignored (l : Location) {name : String} (h : name ∉ ["line", "col"])
    (v : Json) :
    l.set name v = pure l := by
  unfold Location.set
  split
  · exact absurd (by decide) h
  · exact absurd (by decide) h
  · rfl

theorem Location.set_swap (l : Location) {name name' : String} (h : name ≠ name') (v v' : Json) :
    Agree Eq (l.set name v >>= (·.set name' v')) (l.set name' v' >>= (·.set name v)) := by
  unfold Location.set
  split <;> split
  all_goals simp only [bind_assoc, pure_bind]
  -- one and the same name, a name without a meaning, and two fields
  any_goals exact absurd rfl h
  any_goals exact .refl _
  all_goals exact .comm _ _ _

theorem Location.reads_members :
    Role.location.Reads fun l m => Location.set l (Text.fold m.1) m.2.2 where
  ignore l m hm := l.set_ignored hm m.2.2
  swap l m n hmn := l.set_swap hmn m.2.2 n.2.2

namespace EntryFields

theorem set_ignored (e : EntryFields) {name : String}
    (h : name ∉ ["name", "kind", "type", "level", "value"]) (v : Json) : e.set name v = pure e := by
  unfold set
  split
  case h_6 => rfl
  all_goals exact absurd (by decide) h

/-- The value of an entry, which may be missing. -/
def readValue (v : Json) : Reading (Option ℤ) :=
  if v.isNull then .ok none else some <$> readInteger 0 v

theorem set_value_eq (e : EntryFields) (v : Json) :
    ((if v.isNull then pure { e with value := none }
      else do return { e with value := some (← readInteger 0 v) }) :
      Reading EntryFields) = do return { e with value := ← readValue v } := by
  unfold readValue
  split
  · rfl
  · cases readInteger 0 v <;> rfl

theorem set_swap (e : EntryFields) {name name' : String} (h : name ≠ name') (v v' : Json) :
    Agree Eq (e.set name v >>= (·.set name' v')) (e.set name' v' >>= (·.set name v)) := by
  unfold set
  simp only [set_value_eq]
  split <;> split
  all_goals simp only [bind_assoc, pure_bind]
  any_goals exact absurd rfl h
  any_goals exact .refl _
  all_goals exact .comm _ _ _

theorem reads_members : Role.entry.Reads fun e m => EntryFields.set e (Text.fold m.1) m.2.2 where
  ignore e m hm := e.set_ignored hm m.2.2
  swap e m n hmn := e.set_swap hmn m.2.2 n.2.2

end EntryFields

namespace Fields

theorem take_key {m : Member} {p : Part} (h : Text.fold m.1 = p.key) (f : Fields) :
    f.take m = do return (f.put p (← p.read (f.get p) m)).note m.1 := by
  rw [take, h, set_key, bind_assoc]
  simp only [pure_bind]

theorem take_ignored {m : Member} (h : Part.ofKey? (Text.fold m.1) = none) (f : Fields) :
    f.take m = pure f := by
  have hscope : (m.1 == "scope") = false := by
    rw [beq_eq_false_iff_ne]
    intro heq
    rw [heq, fold_scope] at h
    cases h
  rw [take, f.set_other _ _ h]
  show (pure (f.note m.1) : Reading Fields) = _
  rw [note, hscope, Bool.or_false]

theorem ext_get {f f' : Fields} (h : ∀ p : Part, f.get p = f'.get p)
    (hscope : f.hasScope = f'.hasScope) : f = f' := by
  cases f
  cases f'
  rw [Fields.mk.injEq]
  exact ⟨h (.text .kind), h .loc, h (.text .name), h (.text .file), h (.text .type), h (.text .op),
    h (.text .var), h .scope, hscope, h (.child .value), h (.list .decls), h (.list .functions),
    h (.list .vars), h (.list .params), h (.list .statements), h (.list .args), h (.child .body),
    h (.child .constant), h (.child .target), h (.child .left), h (.child .right),
    h (.child .operand), h (.child .condition), h (.child .yes), h (.child .no), h (.child .lower),
    h (.child .upper)⟩

theorem put_put_comm (f : Fields) {p q : Part} (h : p ≠ q) (x : p.Content) (y : q.Content)
    (name name' : String) :
    (((f.put p x).note name).put q y).note name' =
      (((f.put q y).note name').put p x).note name := by
  refine ext_get (fun r => ?_) ?_
  · rw [get_note, get_note]
    by_cases hp : r = p
    · subst hp
      rw [get_put_of_ne _ _ h, get_note, get_put_self, get_put_self]
    · rw [get_put_of_ne _ x hp, get_note]
      by_cases hq : r = q
      · subst hq
        rw [get_put_self, get_put_self]
      · rw [get_put_of_ne _ y hq, get_put_of_ne _ y hq, get_note, get_put_of_ne _ x hp]
  · simp only [hasScope_note, hasScope_put, Bool.or_right_comm]

theorem take_swap (f : Fields) {m n : Member} (h : Text.fold m.1 ≠ Text.fold n.1) :
    Agree Eq (f.take m >>= (·.take n)) (f.take n >>= (·.take m)) := by
  cases hm : Part.ofKey? (Text.fold m.1) with
  | none =>
    simp only [take_ignored hm, pure_bind, bind_pure]
    exact .refl _
  | some p =>
    cases hn : Part.ofKey? (Text.fold n.1) with
    | none =>
      simp only [take_ignored hn, pure_bind, bind_pure]
      exact .refl _
    | some q =>
      have hmp := Part.ofKey?_eq_some_iff.mp hm
      have hnq := Part.ofKey?_eq_some_iff.mp hn
      have hpq : p ≠ q := fun heq => h (by rw [hmp, hnq, heq])
      simp only [take_key hmp, take_key hnq, bind_assoc, pure_bind, get_note, get_put_of_ne _ _ hpq,
        get_put_of_ne _ _ hpq.symm, put_put_comm _ hpq]
      exact .comm _ _ _

theorem reads_members : Role.node.Reads take where
  ignore f _ hm := take_ignored hm f
  swap f _ _ hmn := f.take_swap hmn

end Fields

/-! ### Values that are read alike -/

namespace Role

/-- Reading two values in a role comes to the same. -/
def Agrees : Role → Json → Json → Prop
  | .node, v, v' => Agree Eq (Node.ofJson v) (Node.ofJson v')
  | .nodes, v, v' => List.Forall₂ Child.Alike (Child.itemsOf v) (Child.itemsOf v')
  | .location, v, v' => ∀ old, Agree Eq (readMembers Location.set old v)
      (readMembers Location.set old v')
  | .entry, v, v' => ∀ old, Agree Eq (readMembers EntryFields.set old v)
      (readMembers EntryFields.set old v')
  | .entries, v, v' => ∀ old : ScopeField, Agree Eq (old.read v) (old.read v')
  | .plain, _, _ => True

/-- Two values are read alike in a role. -/
structure Alike (role : Role) (v v' : Json) : Prop where
  shape : v.SameShape v'
  agrees : role.Agrees v v'

theorem agrees_refl (role : Role) (v : Json) : role.Agrees v v := by
  cases role with
  | nodes => exact List.forall₂_same.mpr fun c _ => .refl c
  | node => exact .refl _
  | plain => trivial
  | _ => exact fun old => .refl _

theorem Alike.refl (role : Role) (v : Json) : role.Alike v v := ⟨.refl v, role.agrees_refl v⟩

/-- Objects are read alike if their members are, for each kind of record. -/
theorem agrees_object {role : Role} {ms ms' : List Member}
    (hnode : role = .node →
      Agree Fields.Alike (ms.foldlM Fields.take {}) (ms'.foldlM Fields.take {}))
    (hlocation : role = .location → ∀ old,
      Agree Eq (ms.foldlM (fun l m => Location.set l (Text.fold m.1) m.2.2) old)
      (ms'.foldlM (fun l m => Location.set l (Text.fold m.1) m.2.2) old))
    (hentry : role = .entry → ∀ old,
      Agree Eq (ms.foldlM (fun e m => EntryFields.set e (Text.fold m.1) m.2.2) old)
      (ms'.foldlM (fun e m => EntryFields.set e (Text.fold m.1) m.2.2) old)) :
    role.Agrees (.object ms) (.object ms') := by
  cases role with
  | node =>
    rw [Agrees, Node.ofJson, Node.ofJson, Fields.ofMembers_eq_foldlM, Fields.ofMembers_eq_foldlM]
    exact (hnode rfl).bind fun _ _ hf => hf.node
  | nodes => exact .nil
  | location => exact hlocation rfl
  | entry => exact hentry rfl
  | entries => exact fun _ => .error _ _
  | plain => trivial

theorem alike_ofItems {vs vs' : List Json} (h : List.Forall₂ Role.node.Alike vs vs') :
    List.Forall₂ Child.Alike (Child.ofItems vs) (Child.ofItems vs') := by
  induction h with
  | nil => exact .nil
  | cons hv _ ih => exact .cons ⟨hv.shape, hv.agrees⟩ ih

theorem agree_update {vs vs' : List Json} (h : List.Forall₂ Role.entry.Alike vs vs')
    (store : List EntryFields) :
    Agree Eq (ScopeField.update store vs) (ScopeField.update store vs') := by
  induction h generalizing store with
  | nil => exact .refl _
  | cons hv _ ih =>
    cases store with
    | nil => exact (hv.agrees {}).bind_eq fun _ => (ih []).bind_eq fun _ => .refl _
    | cons e store => exact (hv.agrees e).bind_eq fun _ => (ih store).bind_eq fun _ => .refl _

theorem agree_read {vs vs' : List Json} (h : List.Forall₂ Role.entry.Alike vs vs')
    (old : ScopeField) :
    Agree Eq (old.read (.array vs)) (old.read (.array vs')) := by
  cases h with
  | nil => exact .refl _
  | @cons v v' vs vs' hv hvs =>
    rw [ScopeField.read, ScopeField.read, List.length_cons, List.length_cons, hvs.length_eq]
    · exact (agree_update (.cons hv hvs) old.store).bind_eq fun _ => .refl _
    · exact List.cons_ne_nil _ _
    · exact List.cons_ne_nil _ _

theorem alike_array {role : Role} {vs vs' : List Json} (h : List.Forall₂ role.item.Alike vs vs') :
    role.Alike (.array vs) (.array vs') := by
  refine ⟨.array vs vs', ?_⟩
  cases role with
  | node => exact .error _ _
  | nodes => exact alike_ofItems h
  | location => exact fun _ => .error _ _
  | entry => exact fun _ => .error _ _
  | entries => exact agree_read h
  | plain => trivial

/-- Two members are read alike in an object. -/
structure AlikeMembers (role : Role) (m m' : Member) : Prop where
  name : m.1 = m'.1
  value : (role.member m.1).Alike m.2.2 m'.2.2

end Role

namespace Fields

theorem agree_readItems {v v' : Json} (h : v.SameShape v') {items items' : List Child}
    (hitems : List.Forall₂ Child.Alike items items') :
    Agree (List.Forall₂ Child.Alike) (readItems items v) (readItems items' v') := by
  cases h with
  | refl =>
    cases v with
    | null => exact .ok .nil
    | array => exact .ok hitems
    | _ => exact .error _ _
  | array => exact .ok hitems
  | object => exact .error _ _

/-- A field is read alike from values that are alike. -/
theorem agree_read {p : Part} {x x' : p.Content} {m m' : Member} (hx : p.Alike x x')
    (h : (Role.ofPart p).Alike m.2.2 m'.2.2) : Agree p.Alike (p.read x m) (p.read x' m') := by
  cases p with
  | text k =>
    obtain rfl : x = x' := hx
    exact h.shape.agree_readText x
  | child k => exact .ok (.some ⟨h.shape, h.agrees⟩)
  | list k => exact agree_readItems h.shape h.agrees
  | loc =>
    obtain rfl : x = x' := hx
    exact h.agrees x
  | scope =>
    obtain rfl : x = x' := hx
    exact h.agrees x

theorem Alike.put {f f' : Fields} (h : f.Alike f') {p : Part} {x x' : p.Content}
    (hx : p.Alike x x') :
    (f.put p x).Alike (f'.put p x') where
  part q := by
    by_cases hq : q = p
    · subst hq
      rwa [get_put_self, get_put_self]
    · rw [get_put_of_ne _ _ hq, get_put_of_ne _ _ hq]
      exact h.part q
  hasScope := by rw [hasScope_put, hasScope_put, h.hasScope]

theorem Alike.note {f f' : Fields} (h : f.Alike f') (name : String) :
    (f.note name).Alike (f'.note name) where
  part q := by
    rw [get_note, get_note]
    exact h.part q
  hasScope := by rw [hasScope_note, hasScope_note, h.hasScope]

/-- **One member** that is read alike leads to fields that are alike. -/
theorem Alike.take {f f' : Fields} (h : f.Alike f') {m m' : Member}
    (hm : Role.node.AlikeMembers m m') :
    Agree Fields.Alike (f.take m) (f'.take m') := by
  have hname := hm.name
  cases hkey : Part.ofKey? (Text.fold m.1) with
  | none =>
    rw [take_ignored hkey, take_ignored (by rwa [← hname])]
    exact .ok h
  | some p =>
    have hp := Part.ofKey?_eq_some_iff.mp hkey
    have hvalue : (Role.ofPart p).Alike m.2.2 m'.2.2 := by
      have hvalue := hm.value
      rwa [Role.member, hkey] at hvalue
    rw [take_key hp, take_key (by rwa [← hname]), ← hname]
    exact (agree_read (h.part p) hvalue).bind fun _ _ hx => .ok ((h.put hx).note m.1)

theorem Alike.refl (f : Fields) : f.Alike f where
  part p := by
    cases p with
    | child k =>
      show Option.Rel Child.Alike (f.child k) (f.child k)
      cases f.child k with
      | none => exact .none
      | some c => exact .some (.refl c)
    | list k => exact List.forall₂_same.mpr fun c _ => .refl c
    | _ => rfl
  hasScope := rfl

end Fields

theorem Location.agree_set {m m' : Member} (h : Role.location.AlikeMembers m m') (l : Location) :
    Agree Eq (l.set (Text.fold m.1) m.2.2) (l.set (Text.fold m'.1) m'.2.2) := by
  rw [← h.name]
  unfold Location.set
  simp only [h.value.shape.readInteger_eq]
  exact .refl _

theorem EntryFields.agree_set {m m' : Member} (h : Role.entry.AlikeMembers m m') (e : EntryFields) :
    Agree Eq (e.set (Text.fold m.1) m.2.2) (e.set (Text.fold m'.1) m'.2.2) := by
  rw [← h.name]
  unfold EntryFields.set
  simp only [h.value.shape.readInteger_eq, h.value.shape.readText_eq, h.value.shape.isNull_eq]
  exact .refl _

namespace Role

theorem alike_object {role : Role} {ms ms' : List Member}
    (h : List.Forall₂ role.AlikeMembers ms ms') :
    role.Alike (.object ms) (.object ms') := by
  refine ⟨.object ms ms', agrees_object ?_ ?_ ?_⟩
  · rintro rfl
    exact .foldlM (fun _ _ _ _ hf hm => hf.take hm) h (.refl _)
  · rintro rfl old
    refine .foldlM (fun l l' m m' hl hm => ?_) h rfl
    rw [hl]
    exact Location.agree_set hm l'
  · rintro rfl old
    refine .foldlM (fun e e' m m' he hm => ?_) h rfl
    rw [he]
    exact EntryFields.agree_set hm e'

/-- Members that are read alike, among others that stay. -/
theorem forall₂_append_cons {α : Type} {R : α → α → Prop} (hrefl : ∀ a, R a a) {a a' : α}
    (h : R a a') (before after : List α) :
    List.Forall₂ R (before ++ a :: after) (before ++ a' :: after) := by
  have hsame (as : List α) : List.Forall₂ R as as := List.forall₂_same.mpr fun a _ => hrefl a
  exact List.rel_append (hsame before) (.cons h (hsame after))

theorem AlikeMembers.refl (role : Role) (m : Member) : role.AlikeMembers m m := ⟨rfl, .refl _ _⟩

end Role

open Role (alike_object alike_array)

/-- **An edit leads to a value that is read alike.** -/
theorem Edit.alike {role : Role} {v v' : Json} (h : Edit role v v') : role.Alike v v' := by
  induction h with
  | @permute role ms ms' hms hperm =>
    refine ⟨.object ms ms', Role.agrees_object ?_ ?_ ?_⟩
    · rintro rfl
      exact (Fields.reads_members.perm hperm hms {}).mono fun f f' hf => hf ▸ .refl f
    · rintro rfl old
      exact Location.reads_members.perm hperm hms old
    · rintro rfl old
      exact EntryFields.reads_members.perm hperm hms old
  | @insert role before after m hm =>
    refine ⟨.object _ _, Role.agrees_object ?_ ?_ ?_⟩
    · rintro rfl
      rw [Fields.reads_members.insert hm before after]
      exact (Agree.refl _).mono fun f f' hf => hf ▸ .refl f
    · rintro rfl old
      rw [Location.reads_members.insert hm before after]
      exact .refl _
    · rintro rfl old
      rw [EntryFields.reads_members.insert hm before after]
      exact .refl _
  | member _ ih => exact alike_object (Role.forall₂_append_cons (.refl _) ⟨rfl, ih⟩ _ _)
  | item _ ih => exact alike_array (Role.forall₂_append_cons (.refl _) ih _ _)

mutual

/-- Where the parts of a value stand in a text does not matter. -/
theorem alike_bare : ∀ (v : Json) (role : Role), role.Alike v v.bare
  | .null, role => .refl role _
  | .bool _, role => .refl role _
  | .number _, role => .refl role _
  | .string _, role => .refl role _
  | .array vs, _ => alike_array (alike_bareItems vs _)
  | .object ms, role => alike_object (alike_bareMembers ms role)

theorem alike_bareItems :
    ∀ (vs : List Json) (role : Role), List.Forall₂ role.Alike vs (Json.bareItems vs)
  | [], _ => .nil
  | v :: vs, role => .cons (alike_bare v role) (alike_bareItems vs role)

theorem alike_bareMembers : ∀ (ms : List Member) (role : Role),
    List.Forall₂ role.AlikeMembers ms (Json.bareMembers ms)
  | [], _ => .nil
  | (_, _, v) :: ms, role => .cons ⟨rfl, alike_bare v _⟩ (alike_bareMembers ms role)

end

/-! ### Depth -/

theorem itemDepth_le_iff {n : ℕ} (vs : List Json) :
    Json.itemDepth vs ≤ n ↔ ∀ v ∈ vs, v.depth ≤ n := by
  induction vs with
  | nil => simp [Json.itemDepth]
  | cons v vs ih => simp [Json.itemDepth, ih]

theorem memberDepth_le_iff {n : ℕ} (ms : List Member) :
    Json.memberDepth ms ≤ n ↔ ∀ m ∈ ms, m.2.2.depth ≤ n := by
  induction ms with
  | nil => simp [Json.memberDepth]
  | cons m ms ih => simp [Json.memberDepth, ih]

theorem depth_le_memberDepth {ms : List Member} {m : Member} (h : m ∈ ms) :
    m.2.2.depth ≤ Json.memberDepth ms :=
  (memberDepth_le_iff ms).mp le_rfl m h

theorem depth_le_itemDepth {vs : List Json} {v : Json} (h : v ∈ vs) : v.depth ≤ Json.itemDepth vs :=
  (itemDepth_le_iff vs).mp le_rfl v h

/-- No edit makes a value less deep. -/
theorem Edit.depth_le {role : Role} {v v' : Json} (h : Edit role v v') : v.depth ≤ v'.depth := by
  induction h with
  | permute _ hperm =>
    refine Nat.succ_le_succ ((memberDepth_le_iff _).mpr fun m hm => depth_le_memberDepth ?_)
    exact hperm.mem_iff.mp hm
  | insert _ =>
    refine Nat.succ_le_succ ((memberDepth_le_iff _).mpr fun m hm => depth_le_memberDepth ?_)
    rw [List.mem_append] at hm ⊢
    exact hm.imp_right (List.mem_cons_of_mem _)
  | @member _ before after name extent v v' _ ih =>
    refine Nat.succ_le_succ ((memberDepth_le_iff _).mpr fun m hm => ?_)
    rw [List.mem_append, List.mem_cons] at hm
    rcases hm with hm | rfl | hm
    · exact depth_le_memberDepth (List.mem_append_left _ hm)
    · exact ih.trans (depth_le_memberDepth (m := (name, extent, v')) (by simp))
    · exact depth_le_memberDepth (List.mem_append_right _ (List.mem_cons_of_mem _ hm))
  | @item _ before after v v' _ ih =>
    refine Nat.succ_le_succ ((itemDepth_le_iff _).mpr fun w hw => ?_)
    rw [List.mem_append, List.mem_cons] at hw
    rcases hw with hw | rfl | hw
    · exact depth_le_itemDepth (List.mem_append_left _ hw)
    · exact ih.trans (depth_le_itemDepth (v := v') (by simp))
    · exact depth_le_itemDepth (List.mem_append_right _ (List.mem_cons_of_mem _ hw))

/-! ### Texts -/

theorem agree_of_bare {u v : Json} (h : u.bare = v.bare) :
    Agree Eq (Node.ofJson u) (Node.ofJson v) := by
  have hu : Agree Eq (Node.ofJson u) (Node.ofJson u.bare) := (alike_bare u .node).agrees
  have hv : Agree Eq (Node.ofJson v) (Node.ofJson v.bare) := (alike_bare v .node).agrees
  rw [h] at hu
  exact hu.trans hv.symm

theorem agree_of_edits {v v' : Json} (h : Relation.ReflTransGen (Edit .node) v v') :
    Agree Eq (Node.ofJson v) (Node.ofJson v') ∧ v.depth ≤ v'.depth := by
  induction h with
  | refl => exact ⟨.refl _, le_rfl⟩
  | tail _ hedit ih => exact ⟨ih.1.trans hedit.alike.agrees, ih.2.trans hedit.depth_le⟩

theorem agree_ofText {text text' : List Char} {v v' : Json} (hparse : Json.parse text = some v)
    (hparse' : Json.parse text' = some v') (h : Agree Eq (Node.ofJson v) (Node.ofJson v')) :
    Agree Eq (Program.ofText text) (Program.ofText text') := by
  rw [Program.ofText, Program.ofText, hparse, hparse']
  exact h.bind_eq fun _ => .refl _

/-- Any text of the document of a program is decoded to the program, with types by their names. -/
theorem decode_of_document {p : Program} (h : p.Written) {bytes : List UInt8}
    (htext : p.document.value.IsText (Text.charsOfBytes bytes))
    (hdepth : p.document.value.depth ≤ maxDepth) :
    Program.decode bytes = .ok p.resolved := by
  obtain ⟨u, hparse, hu⟩ := Json.parse_of_isText htext hdepth
  rw [Program.decode, Program.ofText, hparse]
  show (Node.ofJson u).bind _ = _
  rw [ofJson_program h (Json.Document.reads_of_bare hu)]
  rfl

/-- **Presentation does not matter**: if a value is edited, any text of the value before and any
text of the value after are decoded to the same program, or both are refused, unless the edits alone
have made the value too deep. In particular, from the document of a program that program is decoded
after all edits. -/
theorem decode_of_edits {bytes bytes' : List UInt8} {v v' : Json}
    (htext : v.IsText (Text.charsOfBytes bytes)) (htext' : v'.IsText (Text.charsOfBytes bytes'))
    (hedits : Relation.ReflTransGen (Edit .node) v v')
    (hdepth : v.depth ≤ maxDepth → v'.depth ≤ maxDepth) :
    (Program.decode bytes).toOption = (Program.decode bytes').toOption ∧
      ∀ p : Program, p.Written → p.document.value = v → v.depth ≤ maxDepth →
        Program.decode bytes' = .ok p.resolved := by
  obtain ⟨hagree, hle⟩ := agree_of_edits hedits
  have hsame : Agree Eq (Program.decode bytes) (Program.decode bytes') := by
    by_cases hv : v.depth ≤ maxDepth
    · obtain ⟨u, hparse, hu⟩ := Json.parse_of_isText htext hv
      obtain ⟨u', hparse', hu'⟩ := Json.parse_of_isText htext' (hdepth hv)
      exact agree_ofText hparse hparse'
        (((agree_of_bare hu).trans hagree).trans (agree_of_bare hu').symm)
    · have hdeep : maxDepth < v.depth := Nat.lt_of_not_le hv
      rw [Program.decode, Program.decode, Program.ofText, Program.ofText,
        Json.parse_of_deep htext hdeep, Json.parse_of_deep htext' (hdeep.trans_le hle)]
      exact .error _ _
  refine ⟨hsame.toOption_eq, ?_⟩
  rintro p hp rfl hv
  rw [decode_of_document hp htext hv] at hsame
  exact hsame.eq_ok

/-- A record with its members the other way round, behind a remark. -/
def Json.Document.turned : Json.Document → Json.Document → Json.Document
  | .record ms, remark => .record (("Remark", remark) :: ms.reverse)
  | d, _ => d

theorem memberValues_eq_map (ms : List (String × Json.Document)) :
    Json.Document.memberValues ms = ms.map fun m => (m.1, {}, m.2.value) := by
  induction ms with
  | nil => rfl
  | cons m ms ih => rw [Json.Document.memberValues, ih, List.map_cons]

theorem edits_turned {ms : List (String × Json.Document)}
    (h : (ms.map fun m => Text.fold m.1).Nodup) (remark : Json.Document) :
    Relation.ReflTransGen (Edit .node) (Json.Document.record ms).value
      ((Json.Document.record ms).turned remark).value := by
  have hpermute : Edit .node (Json.Document.record ms).value
      (Json.Document.record ms.reverse).value := by
    refine .permute (Role.distinct_of_nodup ?_ _) ?_
    · rw [memberValues_eq_map, List.map_map]
      exact h
    · rw [memberValues_eq_map, memberValues_eq_map]
      exact (List.reverse_perm ms).symm.map _
  have hremark : Role.node.Ignores "Remark" := by
    show Fields.Part.ofKey? (Text.fold "Remark") = none
    decide +kernel
  have hinsert : Edit .node (Json.Document.record ms.reverse).value
      ((Json.Document.record ms).turned remark).value :=
    @Edit.insert .node [] (Json.Document.memberValues ms.reverse) ("Remark", {}, remark.value)
      hremark
  exact (Relation.ReflTransGen.single hpermute).tail hinsert

/-- The bytes of a document with white space around it. -/
def paddedBytes (pad : List Char) (d : Json.Document) : List UInt8 :=
  Text.utf8 (String.ofList (pad ++ (d.chars .plain ++ pad)))

theorem isText_paddedBytes {pad : List Char} (h : ∀ c ∈ pad, Json.isSpace c = true)
    (d : Json.Document) :
    d.value.IsText (Text.charsOfBytes (paddedBytes pad d)) := by
  have hpad : Json.Spaced [] pad := by
    induction pad with
    | nil => exact .nil
    | cons c pad ih =>
      exact .space (h c List.mem_cons_self) (ih fun c' hc' => h c' (List.mem_cons_of_mem c hc'))
  have htext := hpad.append (Json.Spaced.append (d.isText_chars .plain) hpad)
  rw [List.nil_append, List.append_nil] at htext
  rw [paddedBytes, Text.charsOfBytes_utf8, String.toList_ofList]
  exact htext

/-- The document of the specimen the other way round, with a remark. -/
def turnedSpecimen : Json.Document := specimen.document.turned (.list [.text "kind", .record []])

theorem turnedSpecimen_decoded :
    specimen.document.value.IsText (Text.charsOfBytes (paddedBytes [] specimen.document)) ∧
    turnedSpecimen.value.IsText (Text.charsOfBytes (paddedBytes ['\n', ' '] turnedSpecimen)) ∧
    Relation.ReflTransGen (Edit .node) specimen.document.value turnedSpecimen.value ∧
    turnedSpecimen.value.depth ≤ maxDepth ∧
    (Program.decode (paddedBytes [] specimen.document)).toOption =
      (Program.decode (paddedBytes ['\n', ' '] turnedSpecimen)).toOption ∧
    Program.decode (paddedBytes ['\n', ' '] turnedSpecimen) = .ok specimen := by
  have htext := @isText_paddedBytes [] (by decide) specimen.document
  have htext' := @isText_paddedBytes ['\n', ' '] (by decide) turnedSpecimen
  have hedits : Relation.ReflTransGen (Edit .node) specimen.document.value turnedSpecimen.value :=
    edits_turned (by decide +kernel) _
  have hdepth : specimen.document.value.depth ≤ maxDepth := by decide +kernel
  have hdepth' : turnedSpecimen.value.depth ≤ maxDepth := by decide +kernel
  have hwritten : specimen.Written := by decide +kernel
  have hresolved : Resolved specimen.types := by decide +kernel
  obtain ⟨hsame, hdecode⟩ := decode_of_edits htext htext' hedits fun _ => hdepth'
  have hspecimen := hdecode specimen hwritten rfl hdepth
  rw [Program.resolved_eq_self hresolved] at hspecimen
  exact ⟨htext, htext', hedits, hdepth', hsame, hspecimen⟩

end RvBackend
