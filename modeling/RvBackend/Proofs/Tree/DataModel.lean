import RvBackend.Proofs.Tree.Parts

/-! # The data model of trees

What whoever works on a tree takes for granted: an entry has a value if and only if it is a
constant, a boolean literal is zero or one, no expression is left out, operators have names, a minus
sign in front of an operand is `neg`, and a function without a type is one whose type was left out
or empty. All of this is so in every tree that is read, except that a boolean literal keeps whatever
number its value is given as.

* `Node.Documented`: what is taken for granted of a node.
* `Json.MisstatesTruth`: an object with a boolean literal that is a number other than zero and one.
* `nodes_documented_iff`: the nodes of a tree are as they should be, except those that such objects
  describe. -/

namespace RvBackend

/-! ### Members by name -/

/-- The text that a value is. -/
def Json.text? : Json → Option String
  | .string s => some s
  | _ => none

/-- The values of the members with a name, which is compared without regard to case, in the order of
the text. -/
def Json.under (name : String) : Json → List Json
  | .object members => members.filterMap fun m => if Text.fold m.1 = name then some m.2.2 else none
  | _ => []

/-- The last value under a name. -/
def Json.valueUnder? (name : String) (v : Json) : Option Json := (v.under name).getLast?

/-- The last text under a name. -/
def Json.textUnder? (name : String) (v : Json) : Option String :=
  ((v.under name).filterMap Json.text?).getLast?

/-- If each value that is of some sort replaces the one before, the last one is left. -/
theorem foldl_getD {α : Type} (f : Json → Option α) (vs : List Json) (old : α) :
    vs.foldl (fun old v => (f v).getD old) old = (vs.filterMap f).getLast?.getD old := by
  induction vs generalizing old with
  | nil => rfl
  | cons v vs ih =>
    rw [List.foldl_cons, ih]
    cases hv : f v with
    | none => rw [List.filterMap_cons_none hv]; rfl
    | some a => rw [List.filterMap_cons_some hv, List.getLast?_cons]; rfl

/-- If each value replaces the one before, the last one is left. -/
theorem foldl_last {α : Type} (f : Json → α) (vs : List Json) (old : α) :
    vs.foldl (fun _ v => f v) old = (vs.getLast?.map f).getD old := by
  induction vs generalizing old with
  | nil => rfl
  | cons v vs ih =>
    rw [List.foldl_cons, ih, List.getLast?_cons]
    cases vs.getLast? <;> rfl

/-- What the members of an object do to one part `g` of its fields, if only those with some name
count for it. -/
theorem foldl_of_ofMembers {α : Type} {g : Fields → α} {key : String} {step : α → Json → α}
    (hset : ∀ {f f' : Fields} {name : String} {c : Child} {items : List Child},
      f.set name c items = .ok f' → g f' = if name = key then step (g f) c.json else g f)
    (hscope : ∀ (f : Fields) (b : Bool), g { f with hasScope := b } = g f) :
    ∀ {members : List (String × Extent × Json)} {f f' : Fields},
      Fields.ofMembers f members = .ok f' →
      g f' = ((Json.object members).under key).foldl step (g f)
  | [], f, f', h => by cases h; rfl
  | (name, extent, v) :: members, f, f', h => by
    rw [Fields.ofMembers, ok_bind_iff] at h
    obtain ⟨f₁, hf₁, h⟩ := h
    rw [foldl_of_ofMembers hset hscope h, hscope, hset hf₁, Json.under, Json.under,
      List.filterMap_cons]
    dsimp only
    split <;> rfl

theorem text_of_readText {old s : String} {v : Json} (h : readText old v = .ok s) :
    s = v.text?.getD old := by
  unfold readText at h
  split at h <;> cases h <;> rfl

/-- What one member does to the kind, the type and the value. -/
theorem parts_of_set {f f' : Fields} {name : String} {c : Child} {items : List Child}
    (h : f.set name c items = .ok f') :
    f'.kind = (if name = "kind" then c.json.text?.getD f.kind else f.kind) ∧
    f'.type = (if name = "type" then c.json.text?.getD f.type else f.type) ∧
    f'.value.map Child.json = (if name = "value" then some c.json else f.value.map Child.json) := by
  unfold Fields.set at h
  split at h
  all_goals
    simp only [ok_bind_iff, ok_pure_iff] at h
    grind [text_of_readText]

section

variable {members : List (String × Extent × Json)} {f : Fields}
  (h : Fields.ofMembers {} members = .ok f)

include h

theorem kind_of_ofMembers : f.kind = ((Json.object members).textUnder? "kind").getD "" :=
  (foldl_of_ofMembers (g := Fields.kind) (fun hset => (parts_of_set hset).1) (fun _ _ => rfl)
    h).trans (foldl_getD _ _ _)

theorem type_of_ofMembers : f.type = ((Json.object members).textUnder? "type").getD "" :=
  (foldl_of_ofMembers (g := Fields.type) (fun hset => (parts_of_set hset).2.1) (fun _ _ => rfl)
    h).trans (foldl_getD _ _ _)

theorem value_of_ofMembers :
    f.value.map Child.json = (Json.object members).valueUnder? "value" := by
  have hlast : f.value.map Child.json = ((Json.object members).under "value").foldl
      (fun _ v => some v) none :=
    foldl_of_ofMembers (g := fun f => f.value.map Child.json) (fun hset => (parts_of_set hset).2.2)
      (fun _ _ => rfl) h
  rw [hlast, foldl_last, Json.valueUnder?]
  cases ((Json.object members).under "value").getLast? <;> rfl

end

theorem getD_eq_iff {o : Option String} {s : String} (hs : s ≠ "") :
    o.getD "" = s ↔ o = some s := by
  cases o with
  | none => simpa using hs.symm
  | some t => simp

/-! ### What is taken for granted -/

/-- The entries of a scope have a value exactly if they are constants. -/
def Table.Documented (scope : Option Table) : Prop :=
  ∀ e ∈ Table.entriesOf scope, (e.value.isSome ↔ e.kind = .constant)

/-- What is taken for granted of a node that a value describes. -/
def Node.Documented (v : Json) : Node → Prop
  | .program p => Table.Documented p.scope
  | .function f => Table.Documented f.scope ∧
      (f.type = none ↔ v.textUnder? "type" = none ∨ v.textUnder? "type" = some "")
  | .stmt (.block b) => Table.Documented b.scope
  | .stmt (.count _ scope _ _ _ _) => Table.Documented scope
  | .expr .missing => False
  | .expr (.constant c) => c.type = .boolean → c.value = 0 ∨ c.value = 1
  | .expr (.binary _ op _ _) => op ∈ Operator.all
  | .expr (.unary _ op _) => op ∈ Operator.all ∧ op ≠ .minus
  | _ => True

/-- An object that describes a boolean literal by a number other than zero and one. -/
def Json.MisstatesTruth (v : Json) : Prop :=
  v.textUnder? "kind" = some "ConstantValue" ∧ v.textUnder? "type" = some "boolean" ∧
    ∃ digits n, v.valueUnder? "value" = some (.number digits) ∧
    Text.readInt64 digits.toList = some n ∧ n ≠ 0 ∧ n ≠ 1

theorem documented_of_entryFields {fields : EntryFields} {e : Entry} (h : fields.entry = .ok e) :
    e.value.isSome ↔ e.kind = .constant := by
  simp only [EntryFields.entry, ok_bind_iff] at h
  obtain ⟨type, -, h⟩ := h
  split at h
  · cases h; simp
  · cases h; simp
  · split at h <;> cases h
    simp
  · cases h

theorem documented_of_readScope {f : Fields} {scope : Option Table} (h : f.readScope = .ok scope) :
    Table.Documented scope :=
  forall_of_readScope h documented_of_entryFields

theorem mem_all_of_readOperator {f : Fields} {op : Operator} (h : f.readOperator = .ok op) :
    op ∈ Operator.all := by
  unfold Fields.readOperator at h
  cases hparse : Operator.parse? f.op with
  | none => rw [hparse] at h; cases h
  | some op' =>
    rw [hparse] at h
    cases h
    exact List.mem_of_find?_eq_some hparse

theorem mem_all_of_readUnary {f : Fields} {op : Operator} (h : f.readUnary = .ok op) :
    op ∈ Operator.all := by
  simp only [Fields.readUnary, ok_bind_iff, ok_pure_iff] at h
  obtain ⟨op', hop', rfl⟩ := h
  split
  · decide
  · exact mem_all_of_readOperator hop'

theorem parse_eq_boolean_iff {s : String} : Ty.parse s = .ok .boolean ↔ s = "boolean" := by
  constructor
  · intro h
    unfold Ty.parse at h
    split at h
    · split at h
      · cases h
      · have hname := Except.ok.inj h
        unfold Ty.ofName at hname
        split at hname
        · next p hp =>
          obtain rfl : p = .boolean := by cases hname; rfl
          have hs := List.find?_some hp
          rw [beq_iff_eq] at hs
          exact hs.symm
        · cases hname
    · cases h
    · split at h <;> cases h
  · rintro rfl
    decide +kernel

theorem literal?_eq_some {v : Json} {n : ℤ} (h : Fields.literal? v = some n) :
    (n = 0 ∨ n = 1) ∨ ∃ digits, v = .number digits ∧ Text.readInt64 digits.toList = some n := by
  unfold Fields.literal? at h
  split at h
  · exact .inl (.inl (Option.some.inj h).symm)
  · next b => cases b <;> cases h <;> simp
  · next digits => exact .inr ⟨digits, rfl, h⟩
  · cases h

/-- A literal is the number that its value is, if its value is a number. -/
theorem readLiteral_eq_ok {f : Fields} {n : ℤ} (h : f.readLiteral = .ok n) :
    ∃ v, f.value.map Child.json = some v ∧ Fields.literal? v = some n := by
  unfold Fields.readLiteral at h
  split at h
  · cases h
  · next c hc =>
    split at h
    · next m hm =>
      cases h
      exact ⟨c.json, by rw [hc]; rfl, hm⟩
    · cases h

/-- A boolean literal is as it should be unless its object misstates it. -/
theorem constant_documented_iff {members : List (String × Extent × Json)} {f : Fields} {type : Ty}
    {value : ℤ} (hf : Fields.ofMembers {} members = .ok f) (hkind : f.kind = "ConstantValue")
    (htype : f.readType = .ok type) (hvalue : f.readLiteral = .ok value) :
    (type = .boolean → value = 0 ∨ value = 1) ↔ ¬ (Json.object members).MisstatesTruth := by
  obtain ⟨v, hv, hliteral⟩ := readLiteral_eq_ok hvalue
  rw [value_of_ofMembers hf] at hv
  have hparse : Ty.parse f.type = .ok type := by
    unfold Fields.readType at htype
    cases hparse : Ty.parse f.type with
    | error e => rw [hparse] at htype; cases htype
    | ok t => rw [hparse] at htype; cases htype; rfl
  have hboolean : type = .boolean ↔ (Json.object members).textUnder? "type" = some "boolean" := by
    rw [← getD_eq_iff (by decide), ← type_of_ofMembers hf, ← parse_eq_boolean_iff, hparse,
      Except.ok.injEq]
  have hconstant : (Json.object members).textUnder? "kind" = some "ConstantValue" := by
    rw [← getD_eq_iff (by decide), ← kind_of_ofMembers hf, hkind]
  unfold Json.MisstatesTruth
  rw [hboolean, hv]
  constructor
  · rintro htruth ⟨-, htext, digits, n, hdigits, hn, hzero, hone⟩
    cases hdigits
    obtain rfl : value = n := Option.some.inj (hliteral.symm.trans hn)
    exact (htruth htext).elim hzero hone
  · intro hmis htext
    by_contra hne
    rw [not_or] at hne
    rcases literal?_eq_some hliteral with htruth | ⟨digits, rfl, hn⟩
    · exact not_or.mpr hne htruth
    · exact hmis ⟨hconstant, htext, digits, value, rfl, hn, hne.1, hne.2⟩

/-- **A node is as it should be** unless the value that describes it misstates a boolean literal. -/
theorem documented_iff_of_ofJson {v : Json} {n : Node} (h : Node.ofJson v = .ok n) :
    n.Documented v ↔ ¬ v.MisstatesTruth := by
  obtain ⟨members, f, rfl, hf, hmakes⟩ := makes_of_ofJson h
  -- the objects of nodes of other kinds misstate no literal
  have hother {P : Prop} (hkind : f.kind ≠ "ConstantValue") (hP : P) : P ↔
      ¬ (Json.object members).MisstatesTruth := by
    refine iff_of_true hP fun hmis => hkind ?_
    rw [kind_of_ofMembers hf, hmis.1]
    rfl
  cases hmakes with
  | constant kind htype hvalue => exact constant_documented_iff hf kind htype hvalue
  | program kind hscope => exact hother (by rw [kind]; decide) (documented_of_readScope hscope)
  | function kind hscope htype =>
    refine hother (by rw [kind]; decide) ⟨documented_of_readScope hscope, htype.trans ?_⟩
    rw [type_of_ofMembers hf]
    cases (Json.object members).textUnder? "type" <;> simp
  | block kind hscope => exact hother (by rw [kind]; decide) (documented_of_readScope hscope)
  | count kind hscope => exact hother (by rw [kind]; decide) (documented_of_readScope hscope)
  | binary kind hop => exact hother (by rw [kind]; decide) (mem_all_of_readOperator hop)
  | unary kind hop =>
    exact hother (by rw [kind]; decide) ⟨mem_all_of_readUnary hop, ne_minus_of_readUnary hop⟩
  | _ kind => exact hother (by rw [kind]; decide) trivial

/-! ### Trees that were read -/

theorem ofJson_of_decode {bytes : List UInt8} {p : Program} (h : Program.decode bytes = .ok p) :
    ∃ root, Json.parse (Text.charsOfBytes bytes) = some root ∧
      Node.ofJson root = .ok (.program p) := by
  unfold Program.decode Program.ofText at h
  split at h
  · cases h
  · next root hroot =>
    rw [ok_bind_iff] at h
    obtain ⟨n, hn, h⟩ := h
    split at h
    · cases h; exact ⟨root, hroot, hn⟩
    · cases h

/-- **The data model of trees**: each node of a program that was read is described by a value of its
document, and it is as it should be exactly if this value does not give a boolean literal as a
number other than zero and one. -/
theorem nodes_documented_iff {bytes : List UInt8} {p : Program} (h : Program.decode bytes = .ok p) :
    ∃ root, Json.parse (Text.charsOfBytes bytes) = some root ∧ ∀ n, (Node.program p).Part n →
      ∃ v, root.Within v ∧ Node.ofJson v = .ok n ∧ (n.Documented v ↔ ¬ v.MisstatesTruth) := by
  obtain ⟨root, hroot, hprogram⟩ := ofJson_of_decode h
  refine ⟨root, hroot, fun n hn => ?_⟩
  obtain ⟨v, hv, hnode⟩ := exists_within_of_part hprogram hn
  exact ⟨v, hv, hnode, documented_iff_of_ofJson hnode⟩

/-! ### Boolean literals -/

/-- A document whose program prints a boolean literal with that value. -/
def printing (value : String) : List UInt8 :=
  Text.utf8
    ("\x7b\"kind\": \"Program\", \"body\": \x7b\"kind\": \"CompoundStatement\", \"statements\": " ++
      "[\x7b\"kind\": \"Print\", \"target\": \x7b\"kind\": \"ConstantValue\", " ++
      "\"type\": \"boolean\", \"value\": " ++ value ++ "\x7d\x7d]\x7d\x7d")

/-- The literal that a program prints, if that is its first statement. -/
def printed? (p : Program) : Option Constant :=
  match p.body with
  | some (.mk _ _ _ (.print _ (.constant c) :: _)) => some c
  | _ => none

theorem part_of_printed? {p : Program} {c : Constant} (h : printed? p = some c) :
    (Node.program p).Part (.expr (.constant c)) := by
  unfold printed? at h
  split at h
  · next loc scope decls loc' c' statements hbody =>
    cases h
    have hblock :
        Node.stmt (.block (.mk loc scope decls (.print loc' (.constant c) :: statements))) ∈
        (Node.program p).children := by
      simp [Node.children, blockNodes, hbody]
    have hprint : Node.stmt (.print loc' (.constant c)) ∈
        (Node.stmt
          (.block (.mk loc scope decls (.print loc' (.constant c) :: statements)))).children := by
      simp [Node.children, Stmt.children, Block.statements, Stmt.toNode]
    have hconstant : Node.expr (.constant c) ∈ (Node.stmt (.print loc' (.constant c))).children :=
      List.mem_singleton.mpr rfl
    exact .tail (.tail (.single hblock) hprint) hconstant
  · cases h

theorem exists_of_printed? {bytes : List UInt8} {c : Constant}
    (h : (Program.decode bytes).toOption.bind printed? = some c) :
    ∃ p, Program.decode bytes = .ok p ∧ printed? p = some c := by
  cases hdecode : Program.decode bytes with
  | error e => rw [hdecode] at h; cases h
  | ok p => rw [hdecode] at h; exact ⟨p, rfl, h⟩

theorem true_documented : ∃ p, Program.decode (printing "true") = .ok p ∧
    printed? p = some { type := .boolean, value := 1 } ∧
    ∃ root, Json.parse (Text.charsOfBytes (printing "true")) = some root ∧ ∀ n,
      (Node.program p).Part n →
      ∃ v, root.Within v ∧ Node.ofJson v = .ok n ∧ (n.Documented v ↔ ¬ v.MisstatesTruth) := by
  have hdecode : (Program.decode (printing "true")).toOption.bind printed? =
      some { type := .boolean, value := 1 } := by
    decide +kernel
  obtain ⟨p, hp, hprinted⟩ := exists_of_printed? hdecode
  exact ⟨p, hp, hprinted, nodes_documented_iff hp⟩

/-- A boolean literal that is given as five is kept as five. -/
theorem five_not_documented : ∃ p, Program.decode (printing "5") = .ok p ∧
    (Node.program p).Part (.expr (.constant { type := .boolean, value := 5 })) ∧
    ∀ v, ¬ (Node.expr (.constant { type := .boolean, value := 5 })).Documented v := by
  have hdecode : (Program.decode (printing "5")).toOption.bind printed? =
      some { type := .boolean, value := 5 } := by
    decide +kernel
  obtain ⟨p, hp, hprinted⟩ := exists_of_printed? hdecode
  exact ⟨p, hp, part_of_printed? hprinted, fun v h => absurd (h rfl) (by decide)⟩

end RvBackend
