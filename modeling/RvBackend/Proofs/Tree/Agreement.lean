import RvBackend.Proofs.Tree.Members

/-! # Readings that agree

Of two readings it may only matter that both are refused or both succeed, not what the refusal says.
A node is made of its fields, and of each child only whether it is null, the literal that it is, and
the node that it describes count. So fields that are alike in this make the same node.

* `Reading.Agree`: both readings are refused, or both succeed with related results.
* `Child.Alike`, `Fields.Alike`: what counts of a child, and of all fields.
* `Fields.Alike.node`: fields that are alike make the same node, or none. -/

namespace RvBackend

/-- Both readings are refused, or both succeed with related results. -/
inductive Reading.Agree {ε α β : Type} (R : α → β → Prop) : Except ε α → Except ε β → Prop
  | ok {a : α} {b : β} (h : R a b) : Agree R (.ok a) (.ok b)
  | error (e e' : ε) : Agree R (.error e) (.error e')

namespace Reading.Agree

variable {ε α β γ δ : Type} {R : α → β → Prop} {S : γ → δ → Prop}

theorem refl (x : Except ε α) : Agree Eq x x := by
  cases x with
  | error e => exact .error e e
  | ok a => exact .ok rfl

theorem symm {x y : Except ε α} (h : Agree Eq x y) : Agree Eq y x := by
  cases h with
  | ok h => exact .ok h.symm
  | error e e' => exact .error e' e

theorem trans {x y z : Except ε α} (h : Agree Eq x y) (h' : Agree Eq y z) : Agree Eq x z := by
  cases h with
  | ok h => rwa [h]
  | error e _ =>
    cases h' with
    | error _ e' => exact .error e e'

theorem mono {R' : α → β → Prop} {x : Except ε α} {y : Except ε β} (h : Agree R x y)
    (hR : ∀ a b, R a b → R' a b) :
    Agree R' x y := by
  cases h with
  | ok h => exact .ok (hR _ _ h)
  | error e e' => exact .error e e'

theorem toOption_eq {x y : Except ε α} (h : Agree Eq x y) : x.toOption = y.toOption := by
  cases h with
  | ok h => rw [h]
  | error => rfl

theorem eq_ok {a : α} {x : Except ε α} (h : Agree Eq (.ok a) x) : x = .ok a := by
  cases h with
  | ok h => rw [h]

theorem bind {x : Except ε α} {y : Except ε β} {f : α → Except ε γ} {g : β → Except ε δ}
    (h : Agree R x y) (hfg : ∀ a b, R a b → Agree S (f a) (g b)) : Agree S (x >>= f) (y >>= g) := by
  cases h with
  | ok h => exact hfg _ _ h
  | error e e' => exact .error e e'

/-- The same for readings with equal results. -/
theorem bind_eq {x y : Except ε α} {f : α → Except ε γ} {g : α → Except ε δ} (h : Agree Eq x y)
    (hfg : ∀ a, Agree S (f a) (g a)) : Agree S (x >>= f) (y >>= g) :=
  h.bind fun a _ hab => hab ▸ hfg a

/-- Two readings that do not depend on each other can be made in any order. -/
theorem comm (x : Except ε α) (y : Except ε β) (f : α → β → Except ε γ) :
    Agree Eq (x >>= fun a => y >>= fun b => f a b) (y >>= fun b => x >>= fun a => f a b) := by
  cases x with
  | error e => cases y <;> exact .error _ _
  | ok a =>
    cases y with
    | error e => exact .error _ _
    | ok b => exact refl _

theorem map {x y : Except ε α} (h : Agree Eq x y) (f : α → γ) : Agree Eq (f <$> x) (f <$> y) := by
  cases h with
  | ok h => rw [h]; exact refl _
  | error e e' => exact .error e e'

theorem mapM {f : α → Except ε γ} {g : β → Except ε γ} (hfg : ∀ a b, R a b → Agree Eq (f a) (g b))
    {as : List α} {bs : List β} (h : List.Forall₂ R as bs) : Agree Eq (as.mapM f) (bs.mapM g) := by
  induction h with
  | nil => exact refl _
  | cons hab _ ih =>
    rw [List.mapM_cons, List.mapM_cons]
    exact (hfg _ _ hab).bind_eq fun _ => ih.bind_eq fun _ => refl _

theorem foldlM {f : α → γ → Except ε α} {g : β → δ → Except ε β}
    (hfg : ∀ a b c d, R a b → S c d → Agree R (f a c) (g b d)) {cs : List γ} {ds : List δ}
    (h : List.Forall₂ S cs ds) {a : α} {b : β} (hab : R a b) :
    Agree R (cs.foldlM f a) (ds.foldlM g b) := by
  induction h generalizing a b with
  | nil => exact .ok hab
  | cons hcd _ ih =>
    rw [List.foldlM_cons, List.foldlM_cons]
    exact (hfg _ _ _ _ hab hcd).bind fun _ _ hab' => ih hab'

end Reading.Agree

open Reading (Agree)

/-! ### Values and children -/

/-- Values of which only what is inside an array or object may differ. -/
inductive Json.SameShape : Json → Json → Prop
  | refl (v : Json) : SameShape v v
  | array (vs vs' : List Json) : SameShape (.array vs) (.array vs')
  | object (ms ms' : List Member) : SameShape (.object ms) (.object ms')

namespace Json.SameShape

variable {v v' : Json}

theorem isNull_eq (h : v.SameShape v') : v.isNull = v'.isNull := by cases h <;> rfl

theorem literal?_eq (h : v.SameShape v') :
    Fields.literal? v = Fields.literal? v' := by cases h <;> rfl

theorem readText_eq (h : v.SameShape v') (old : String) :
    readText old v = readText old v' := by cases h <;> rfl

theorem agree_readText (h : v.SameShape v') (old : String) :
    Agree Eq (readText old v) (readText old v') := by
  rw [h.readText_eq]
  exact .refl _

theorem readInteger_eq (h : v.SameShape v') (old : ℤ) :
    readInteger old v = readInteger old v' := by cases h <;> rfl

end Json.SameShape

/-- Children of which a node is made in the same way. -/
structure Child.Alike (c c' : Child) : Prop where
  shape : c.json.SameShape c'.json
  node : Agree Eq c.node c'.node

namespace Child

theorem Alike.refl (c : Child) : c.Alike c := ⟨.refl _, .refl _⟩

theorem Alike.typed {α : Type} {wanted : String} {view : Node → Option α} {c c' : Child}
    (h : c.Alike c') :
    Agree Eq (c.typed wanted view) (c'.typed wanted view) := h.node.bind_eq fun _ => .refl _

theorem Alike.statement {c c' : Child} (h : c.Alike c') : Agree Eq c.statement c'.statement :=
  h.node.bind_eq fun _ => .refl _

variable {c c' : Option Child} (h : Option.Rel Alike c c')

include h

theorem agree_expression : Agree Eq (expression c) (expression c') := by
  cases h with
  | none => exact .refl _
  | @some c c' h =>
    rw [expression, expression, h.shape.isNull_eq]
    split
    · exact .error _ _
    · exact h.node.bind_eq fun _ => .refl _

theorem agree_reference : Agree Eq (reference c) (reference c') := by
  cases h with
  | none => exact .refl _
  | @some c c' h =>
    rw [reference, reference, h.shape.isNull_eq]
    split
    · exact .refl _
    · exact h.typed

theorem agree_block : Agree Eq (block c) (block c') := by
  cases h with
  | none => exact .refl _
  | @some c c' h =>
    rw [block, block, h.shape.isNull_eq]
    split
    · exact .refl _
    · exact h.typed.map some

omit h

theorem agree_declarations {cs cs' : List Child} (h : List.Forall₂ Alike cs cs') :
    Agree Eq (declarations cs) (declarations cs') := .mapM (fun _ _ hc => hc.typed) h

end Child

/-! ### Fields -/

namespace Fields

/-- What a field holds counts for the node in the same way. -/
def Part.Alike : (p : Part) → p.Content → p.Content → Prop
  | .text _ => Eq
  | .child _ => Option.Rel Child.Alike
  | .list _ => List.Forall₂ Child.Alike
  | .loc => Eq
  | .scope => Eq

/-- Fields of which a node is made in the same way. -/
structure Alike (f f' : Fields) : Prop where
  part : ∀ p : Part, p.Alike (f.get p) (f'.get p)
  hasScope : f.hasScope = f'.hasScope

namespace Alike

variable {f f' : Fields} (h : f.Alike f')

include h

theorem text (k : TextPart) : f.text k = f'.text k := h.part (.text k)

theorem child (k : ChildPart) : Option.Rel Child.Alike (f.child k) (f'.child k) := h.part (.child k)

theorem list (k : ListPart) : List.Forall₂ Child.Alike (f.list k) (f'.list k) := h.part (.list k)

theorem loc : f.loc = f'.loc := h.part .loc

theorem scope : f.scope = f'.scope := h.part .scope

theorem readType : f.readType = f'.readType := by
  rw [Fields.readType, Fields.readType, show f.type = f'.type from h.text .type, h.loc]

theorem readOperator : f.readOperator = f'.readOperator := by
  rw [Fields.readOperator, Fields.readOperator, show f.op = f'.op from h.text .op, h.loc]

theorem readScope : f.readScope = f'.readScope := by
  rw [Fields.readScope, Fields.readScope, h.hasScope, h.scope, h.loc]

theorem readLiteral : Agree Eq f.readLiteral f'.readLiteral := by
  have hvalue : Option.Rel Child.Alike f.value f'.value := h.child .value
  unfold Fields.readLiteral
  generalize f.value = c, f'.value = c' at hvalue ⊢
  cases hvalue with
  | none => exact .error _ _
  | @some c c' hc =>
    simp only [hc.shape.literal?_eq]
    split
    · exact .refl _
    · exact .error _ _

theorem constantNode : Agree Eq f.constantNode f'.constantNode := by
  rw [Fields.constantNode, Fields.constantNode, h.readType, h.loc]
  exact Agree.bind_eq (.refl _) fun _ => h.readLiteral.bind_eq fun _ => .refl _

theorem variableNode : Agree Eq f.variableNode f'.variableNode := by
  have hconstant : Option.Rel Child.Alike f.constant f'.constant := h.child .constant
  rw [Fields.variableNode, Fields.variableNode, h.readType, h.loc,
    show f.name = f'.name from h.text .name]
  refine Agree.bind_eq (.refl _) fun _ => ?_
  generalize f.constant = c, f'.constant = c' at hconstant ⊢
  cases hconstant with
  | none => exact .refl _
  | @some c c' hc =>
    simp only [hc.shape.isNull_eq]
    split
    · exact .refl _
    · exact (hc.typed.map some).bind_eq fun _ => .refl _

theorem programNode : Agree Eq f.programNode f'.programNode := by
  rw [Fields.programNode, Fields.programNode, h.readScope, h.loc,
    show f.name = f'.name from h.text .name, show f.file = f'.file from h.text .file]
  exact Agree.bind_eq (.refl _) fun _ => (Child.agree_declarations (h.list .decls)).bind_eq fun _ =>
    Agree.bind_eq (.mapM (fun _ _ hc => hc.typed) (h.list .functions)) fun _ =>
      (Child.agree_block (h.child .body)).bind_eq fun _ => .refl _

theorem functionNode : Agree Eq f.functionNode f'.functionNode := by
  rw [Fields.functionNode, Fields.functionNode, h.readScope, h.readType, h.loc,
    show f.name = f'.name from h.text .name, show f.type = f'.type from h.text .type]
  refine Agree.bind_eq (.refl _) fun _ => ?_
  dsimp only
  split
  all_goals
    exact Agree.bind_eq (.refl _) fun _ =>
      (Child.agree_declarations (h.list .params)).bind_eq fun _ =>
        (Child.agree_block (h.child .body)).bind_eq fun _ => .refl _

theorem blockNode : Agree Eq f.blockNode f'.blockNode := by
  rw [Fields.blockNode, Fields.blockNode, h.readScope, h.loc]
  exact Agree.bind_eq (.refl _) fun _ => (Child.agree_declarations (h.list .decls)).bind_eq fun _ =>
    Agree.bind_eq (.mapM (fun _ _ hc => hc.statement) (h.list .statements)) fun _ => .refl _

theorem countNode : Agree Eq f.countNode f'.countNode := by
  rw [Fields.countNode, Fields.countNode, h.readScope, h.loc, show f.var = f'.var from h.text .var]
  exact Agree.bind_eq (.refl _) fun _ => (Child.agree_expression (h.child .lower)).bind_eq fun _ =>
    (Child.agree_expression (h.child .upper)).bind_eq fun _ =>
      (Child.agree_block (h.child .body)).bind_eq fun _ => .refl _

theorem readUnary :
    f.readUnary = f'.readUnary := by rw [Fields.readUnary, Fields.readUnary, h.readOperator]

/-- **Fields that are alike make the same node**, or none. -/
theorem node : Agree Eq f.node f'.node := by
  have expression (k : ChildPart) := Child.agree_expression (h.child k)
  have reference (k : ChildPart) := Child.agree_reference (h.child k)
  have block (k : ChildPart) := Child.agree_block (h.child k)
  unfold Fields.node
  rw [show f.kind = f'.kind from h.text .kind, show f.name = f'.name from h.text .name, h.loc,
    h.readOperator, h.readUnary]
  split
  · exact h.programNode.bind_eq fun _ => .refl _
  · exact Agree.bind_eq (.mapM (fun _ _ hc => hc.typed) (h.list .vars)) fun _ => .refl _
  · exact h.variableNode.bind_eq fun _ => .refl _
  · exact h.constantNode.bind_eq fun _ => .refl _
  · exact h.functionNode.bind_eq fun _ => .refl _
  · exact h.blockNode.bind_eq fun _ => .refl _
  · exact (expression .target).bind_eq fun _ => .refl _
  · exact (reference .target).bind_eq fun _ => .refl _
  · exact (reference .target).bind_eq fun _ => (expression .value).bind_eq fun _ => .refl _
  · exact Agree.bind_eq (.refl _) fun _ => (expression .left).bind_eq fun _ =>
      (expression .right).bind_eq fun _ => .refl _
  · exact Agree.bind_eq (.refl _) fun _ => (expression .operand).bind_eq fun _ => .refl _
  · exact Agree.bind_eq (.mapM (fun _ _ hc => Child.agree_expression (.some hc)) (h.list .args))
      fun _ => .refl _
  · exact .refl _
  · exact (expression .condition).bind_eq fun _ => (block .yes).bind_eq fun _ =>
      (block .no).bind_eq fun _ => .refl _
  · exact (expression .condition).bind_eq fun _ => (block .body).bind_eq fun _ => .refl _
  · exact h.countNode.bind_eq fun _ => .refl _
  · exact (expression .value).bind_eq fun _ => .refl _
  · exact .refl _
  · exact .refl _

end Alike

end Fields

end RvBackend
