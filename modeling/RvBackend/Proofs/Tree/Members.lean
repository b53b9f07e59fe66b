import RvBackend.Proofs.Text.Pieces
import RvBackend.Proofs.Tree.DataModel

/-! # Members and fields

The fields of a node's object are texts, children, lists of children, a location and a scope, each
with a name of its own. A member changes the field with its name and no other, so a field holds what
the members with its name have made of it, one after the other.

* `Fields.Part`: a field by its name, with what it holds (`Fields.get`, `Fields.put`).
* `Fields.take_eq_ok`: what one member does to the fields.
* `foldlM_membersNamed`: what all members do, seen from the field with one name. -/

namespace RvBackend

/-- A member of an object. -/
abbrev Member := String × Extent × Json

/-- The child that a member is. -/
def Member.child (m : Member) : Child :=
  { json := m.2.2, extent := m.2.1, node := Node.ofJson m.2.2 }

theorem fold_scope : Text.fold "scope" = "scope" := Text.map_eq_self (by decide)

/-- The items of an array; other values have none. -/
def Json.items : Json → List Json
  | .array items => items
  | _ => []

/-! ### Fields by their names -/

namespace Fields

/-- The fields that are texts. -/
inductive TextPart where
  | kind
  | name
  | file
  | type
  | op
  | var
deriving DecidableEq

/-- The fields that are children. -/
inductive ChildPart where
  | value
  | body
  | constant
  | target
  | left
  | right
  | operand
  | condition
  | yes
  | no
  | lower
  | upper
deriving DecidableEq

/-- The fields that are lists of children. -/
inductive ListPart where
  | decls
  | functions
  | vars
  | params
  | statements
  | args
deriving DecidableEq

/-- The fields that members can change. -/
inductive Part where
  | text (k : TextPart)
  | child (k : ChildPart)
  | list (k : ListPart)
  | loc
  | scope
deriving DecidableEq

/-- The name of a text. -/
def TextPart.key : TextPart → String
  | .kind => "kind"
  | .name => "name"
  | .file => "file"
  | .type => "type"
  | .op => "op"
  | .var => "var"

/-- The name of a child. -/
def ChildPart.key : ChildPart → String
  | .value => "value"
  | .body => "body"
  | .constant => "constant"
  | .target => "target"
  | .left => "left"
  | .right => "right"
  | .operand => "operand"
  | .condition => "condition"
  | .yes => "then"
  | .no => "else"
  | .lower => "lower"
  | .upper => "upper"

/-- The name of a list. -/
def ListPart.key : ListPart → String
  | .decls => "decls"
  | .functions => "functions"
  | .vars => "variables"
  | .params => "params"
  | .statements => "statements"
  | .args => "args"

/-- The name of a field. -/
def Part.key : Part → String
  | .text k => k.key
  | .child k => k.key
  | .list k => k.key
  | .loc => "loc"
  | .scope => "scope"

/-- The field with a name. -/
def Part.ofKey? : String → Option Part
  | "kind" => some (.text .kind)
  | "name" => some (.text .name)
  | "file" => some (.text .file)
  | "type" => some (.text .type)
  | "op" => some (.text .op)
  | "var" => some (.text .var)
  | "value" => some (.child .value)
  | "body" => some (.child .body)
  | "constant" => some (.child .constant)
  | "target" => some (.child .target)
  | "left" => some (.child .left)
  | "right" => some (.child .right)
  | "operand" => some (.child .operand)
  | "condition" => some (.child .condition)
  | "then" => some (.child .yes)
  | "else" => some (.child .no)
  | "lower" => some (.child .lower)
  | "upper" => some (.child .upper)
  | "decls" => some (.list .decls)
  | "functions" => some (.list .functions)
  | "variables" => some (.list .vars)
  | "params" => some (.list .params)
  | "statements" => some (.list .statements)
  | "args" => some (.list .args)
  | "loc" => some .loc
  | "scope" => some .scope
  | _ => none

theorem Part.ofKey?_key (p : Part) : Part.ofKey? p.key = some p := by
  cases p with
  | text k => cases k <;> rfl
  | child k => cases k <;> rfl
  | list k => cases k <;> rfl
  | loc => rfl
  | scope => rfl

theorem Part.ofKey?_eq_some_iff {name : String} {p : Part} :
    Part.ofKey? name = some p ↔ name = p.key := by
  constructor
  · intro h
    unfold Part.ofKey? at h
    split at h <;> cases h <;> rfl
  · rintro rfl
    exact p.ofKey?_key

theorem Part.key_injective : Function.Injective Part.key := by
  intro p q h
  have hq := q.ofKey?_key
  rw [← h, p.ofKey?_key] at hq
  exact Option.some.inj hq

/-- A text by its name. -/
def text (f : Fields) : TextPart → String
  | .kind => f.kind
  | .name => f.name
  | .file => f.file
  | .type => f.type
  | .op => f.op
  | .var => f.var

/-- The fields with another text. -/
def setText (f : Fields) (s : String) : TextPart → Fields
  | .kind => { f with kind := s }
  | .name => { f with name := s }
  | .file => { f with file := s }
  | .type => { f with type := s }
  | .op => { f with op := s }
  | .var => { f with var := s }

/-- A child by its name. -/
def child (f : Fields) : ChildPart → Option Child
  | .value => f.value
  | .body => f.body
  | .constant => f.constant
  | .target => f.target
  | .left => f.left
  | .right => f.right
  | .operand => f.operand
  | .condition => f.condition
  | .yes => f.yes
  | .no => f.no
  | .lower => f.lower
  | .upper => f.upper

/-- The fields with another child. -/
def setChild (f : Fields) (c : Option Child) : ChildPart → Fields
  | .value => { f with value := c }
  | .body => { f with body := c }
  | .constant => { f with constant := c }
  | .target => { f with target := c }
  | .left => { f with left := c }
  | .right => { f with right := c }
  | .operand => { f with operand := c }
  | .condition => { f with condition := c }
  | .yes => { f with yes := c }
  | .no => { f with no := c }
  | .lower => { f with lower := c }
  | .upper => { f with upper := c }

/-- A list of children by its name. -/
def list (f : Fields) : ListPart → List Child
  | .decls => f.decls
  | .functions => f.functions
  | .vars => f.vars
  | .params => f.params
  | .statements => f.statements
  | .args => f.args

/-- The fields with another list of children. -/
def setList (f : Fields) (cs : List Child) : ListPart → Fields
  | .decls => { f with decls := cs }
  | .functions => { f with functions := cs }
  | .vars => { f with vars := cs }
  | .params => { f with params := cs }
  | .statements => { f with statements := cs }
  | .args => { f with args := cs }

/-- What a field holds. -/
def Part.Content : Part → Type
  | .text _ => String
  | .child _ => Option Child
  | .list _ => List Child
  | .loc => Location
  | .scope => ScopeField

/-- What the fields hold under a name. -/
def get (f : Fields) : (p : Part) → p.Content
  | .text k => f.text k
  | .child k => f.child k
  | .list k => f.list k
  | .loc => f.loc
  | .scope => f.scope

/-- The fields with something else under a name. -/
def put (f : Fields) : (p : Part) → p.Content → Fields
  | .text k, s => f.setText s k
  | .child k, c => f.setChild c k
  | .list k, cs => f.setList cs k
  | .loc, loc => { f with loc }
  | .scope, scope => { f with scope }

theorem get_put_self (f : Fields) (p : Part) (x : p.Content) : (f.put p x).get p = x := by
  cases p with
  | text k => cases k <;> rfl
  | child k => cases k <;> rfl
  | list k => cases k <;> rfl
  | loc => rfl
  | scope => rfl

theorem text_setText_of_ne (f : Fields) (s : String) {k k' : TextPart} (h : k' ≠ k) :
    (f.setText s k).text k' = f.text k' := by
  cases k <;> cases k' <;> simp_all [text, setText]

theorem child_setChild_of_ne (f : Fields) (c : Option Child) {k k' : ChildPart} (h : k' ≠ k) :
    (f.setChild c k).child k' = f.child k' := by
  cases k <;> cases k' <;> simp_all [child, setChild]

theorem list_setList_of_ne (f : Fields) (cs : List Child) {k k' : ListPart} (h : k' ≠ k) :
    (f.setList cs k).list k' = f.list k' := by
  cases k <;> cases k' <;> simp_all [list, setList]

theorem get_put_of_ne (f : Fields) {p q : Part} (x : p.Content) (h : q ≠ p) :
    (f.put p x).get q = f.get q := by
  cases p with
  | text k =>
    cases q with
    | text k' => exact f.text_setText_of_ne x fun hk => h (congrArg Part.text hk)
    | _ => cases k <;> rfl
  | child k =>
    cases q with
    | child k' => exact f.child_setChild_of_ne x fun hk => h (congrArg Part.child hk)
    | _ => cases k <;> rfl
  | list k =>
    cases q with
    | list k' => exact f.list_setList_of_ne x fun hk => h (congrArg Part.list hk)
    | _ => cases k <;> rfl
  | loc =>
    cases q with
    | loc => exact absurd rfl h
    | _ => rfl
  | scope =>
    cases q with
    | scope => exact absurd rfl h
    | _ => rfl

theorem hasScope_put (f : Fields) (p : Part) (x : p.Content) :
    (f.put p x).hasScope = f.hasScope := by
  cases p with
  | text k => cases k <;> rfl
  | child k => cases k <;> rfl
  | list k => cases k <;> rfl
  | loc => rfl
  | scope => rfl

/-! ### One member -/

/-- What a member makes of the field with its name. -/
def Part.read : (p : Part) → p.Content → Member → Reading p.Content
  | .text _, old, m => readText old m.2.2
  | .child _, _, m => .ok (some m.child)
  | .list _, _, m => readItems (Child.itemsOf m.2.2) m.2.2
  | .loc, old, m => readMembers Location.set old m.2.2
  | .scope, old, m => old.read m.2.2

theorem set_key (f : Fields) (p : Part) (m : Member) :
    f.set p.key m.child (Child.itemsOf m.2.2) = do return f.put p (← p.read (f.get p) m) := by
  cases p with
  | text k => cases k <;> rfl
  | child k => cases k <;> rfl
  | list k => cases k <;> rfl
  | loc => rfl
  | scope => rfl

theorem set_other (f : Fields) {name : String} (c : Child) (items : List Child)
    (h : Part.ofKey? name = none) :
    f.set name c items = .ok f := by
  unfold set
  split
  case h_27 => rfl
  all_goals cases h

/-- The fields with a note whether there is a scope member, after a member with this name. -/
def note (f : Fields) (name : String) : Fields :=
  { f with hasScope := f.hasScope || name == "scope" }

theorem get_note (f : Fields) (name : String) (p : Part) : (f.note name).get p = f.get p := by
  cases p with
  | text k => cases k <;> rfl
  | child k => cases k <;> rfl
  | list k => cases k <;> rfl
  | loc => rfl
  | scope => rfl

theorem hasScope_note (f : Fields) (name : String) :
    (f.note name).hasScope = (f.hasScope || name == "scope") := rfl

/-- The fields after one more member. -/
def take (f : Fields) (m : Member) : Reading Fields := do
  let f ← f.set (Text.fold m.1) m.child (Child.itemsOf m.2.2)
  return f.note m.1

theorem ofMembers_eq_foldlM (f : Fields) (members : List Member) :
    ofMembers f members = members.foldlM take f := by
  induction members generalizing f with
  | nil => rw [ofMembers]; rfl
  | cons m members ih =>
    rw [ofMembers, List.foldlM_cons, take, bind_assoc]
    simp only [pure_bind, ih]
    rfl

/-- **One member** changes the field with its name, if there is one, and no other. -/
theorem take_eq_ok {f f' : Fields} {m : Member} (h : f.take m = .ok f') :
    (∀ p : Part, if Text.fold m.1 = p.key then p.read (f.get p) m = .ok (f'.get p)
      else f'.get p = f.get p) ∧
      f'.hasScope = (f.hasScope || m.1 == "scope") := by
  rw [take, ok_bind_iff] at h
  obtain ⟨g, hg, h⟩ := h
  obtain rfl := ok_pure_iff.mp h
  simp only [get_note]
  cases hname : Part.ofKey? (Text.fold m.1) with
  | none =>
    rw [set_other f _ _ hname] at hg
    cases hg
    refine ⟨fun p => ?_, rfl⟩
    rw [if_neg]
    intro hp
    rw [hp, p.ofKey?_key] at hname
    cases hname
  | some q =>
    obtain hkey := Part.ofKey?_eq_some_iff.mp hname
    rw [hkey, set_key, ok_bind_iff] at hg
    obtain ⟨x, hx, hg⟩ := hg
    obtain rfl := ok_pure_iff.mp hg
    refine ⟨fun p => ?_, by rw [hasScope_note, hasScope_put]⟩
    split
    · next hp =>
      obtain rfl : q = p := Part.key_injective (hkey.symm.trans hp)
      rw [get_put_self]
      exact hx
    · next hp => exact f.get_put_of_ne x fun hpq => hp (by rw [hkey, hpq])

end Fields

/-! ### All members -/

/-- The members with a name, which is compared without regard to case. -/
def membersNamed (key : String) (members : List Member) : List Member :=
  members.filter fun m => Text.fold m.1 = key

theorem under_object (key : String) (members : List Member) :
    (Json.object members).under key = (membersNamed key members).map fun m => m.2.2 := by
  induction members with
  | nil => rfl
  | cons m members ih =>
    rw [Json.under] at ih ⊢
    by_cases hm : Text.fold m.1 = key
    · rw [List.filterMap_cons_some (by rw [if_pos hm]), ih, membersNamed, membersNamed,
        List.filter_cons_of_pos (by simpa using hm)]
      rfl
    · rw [List.filterMap_cons_none (by rw [if_neg hm]), ih, membersNamed, membersNamed,
        List.filter_cons_of_neg (by simpa using hm)]

/-- **One field among all members**: if only the members with its name change it, it holds what they
make of it. -/
theorem foldlM_membersNamed {α β : Type} {set : α → Member → Reading α} {g : α → β} {key : String}
    {step : β → Member → Reading β}
    (hset : ∀ {a b : α} {m : Member}, set a m = .ok b →
      if Text.fold m.1 = key then step (g a) m = .ok (g b) else g b = g a)
    {members : List Member} {a b : α} (h : members.foldlM set a = .ok b) :
    (membersNamed key members).foldlM step (g a) = .ok (g b) := by
  induction members generalizing a with
  | nil =>
    cases h
    rfl
  | cons m members ih =>
    rw [List.foldlM_cons, ok_bind_iff] at h
    obtain ⟨a', ha', h⟩ := h
    have hm := hset ha'
    have hrest := ih h
    rw [membersNamed] at hrest ⊢
    split at hm
    · next hkey =>
      rw [List.filter_cons_of_pos (by simpa using hkey), List.foldlM_cons, hm]
      exact hrest
    · next hkey =>
      rw [List.filter_cons_of_neg (by simpa using hkey), ← hm]
      exact hrest

theorem Fields.get_of_ofMembers {f f' : Fields} {members : List Member}
    (h : Fields.ofMembers f members = .ok f') (p : Fields.Part) :
    (membersNamed p.key members).foldlM p.read (f.get p) = .ok (f'.get p) := by
  rw [Fields.ofMembers_eq_foldlM] at h
  exact foldlM_membersNamed (fun hm => (Fields.take_eq_ok hm).1 p) h

theorem Fields.hasScope_of_ofMembers {f f' : Fields} {members : List Member}
    (h : Fields.ofMembers f members = .ok f') :
    f'.hasScope = (f.hasScope || members.any (·.1 == "scope")) := by
  rw [Fields.ofMembers_eq_foldlM] at h
  induction members generalizing f with
  | nil =>
    cases h
    rw [List.any_nil, Bool.or_false]
  | cons m members ih =>
    rw [List.foldlM_cons, ok_bind_iff] at h
    obtain ⟨g, hg, h⟩ := h
    rw [ih h, (Fields.take_eq_ok hg).2, List.any_cons, Bool.or_assoc]

/-- The same for a record whose members are all read at once. -/
theorem foldl_of_readMembers {α β : Type} {set : α → String → Json → Reading α} {g : α → β}
    {key : String} {step : β → Json → β}
    (hset : ∀ {a b : α} {name : String} {v : Json}, set a name v = .ok b →
      g b = if name = key then step (g a) v else g a)
    {v : Json} {a b : α} (h : readMembers set a v = .ok b) :
    g b = (v.under key).foldl step (g a) := by
  unfold readMembers at h
  split at h
  · next members =>
    have hfold :
        (membersNamed key members).foldlM (fun x m => (pure (step x m.2.2) : Reading β)) (g a) =
            .ok (g b) := by
      refine foldlM_membersNamed (fun {a b m} hm => ?_) h
      rw [hset hm]
      split <;> rfl
    rw [List.foldlM_pure, ok_pure_iff] at hfold
    rw [under_object, List.foldl_map]
    exact hfold.symm
  · cases h
    rfl
  · cases h

end RvBackend
