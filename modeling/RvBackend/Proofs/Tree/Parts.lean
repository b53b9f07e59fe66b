import RvBackend.Proofs.Tree.Occurrences

/-! # Nodes of a tree and values of a document

A tree that was read consists of nodes, and the document it was read from of values. Each node is
what one of the values describes, so what holds of every node that a value can describe holds of
every node of the tree.

* `Fields.Makes`: the nodes that the fields of an object can make, one case for each kind.
* `Node.Part` and `Json.Within`: the nodes of a node and the values in a value, at any depth.
* `exists_within_of_part`: each node of a tree is described by a value of its document. -/

namespace RvBackend

/-! ### Parts of trees and values -/

/-- The node that an expression is. An invocation is a node of its own kind. -/
def Expr.toNode : Expr → Node
  | .call loc callee args => .call loc callee args
  | e => .expr e

/-- The node that a statement is. -/
def Stmt.toNode : Stmt → Node
  | .call loc callee args => .call loc callee args
  | s => .stmt s

/-- The node of a block that may be missing. -/
def blockNodes (b : Option Block) : List Node := b.toList.map fun b => .stmt (.block b)

/-- The nodes right below an expression. -/
def Expr.children : Expr → List Node
  | .binary _ _ left right => [left.toNode, right.toNode]
  | .unary _ _ operand => [operand.toNode]
  | .call _ _ args => args.map Expr.toNode
  | _ => []

/-- The nodes right below a statement. The variable that a statement gives a value to is one of
them. -/
def Stmt.children : Stmt → List Node
  | .block b => b.decls.map .decl ++ b.statements.map Stmt.toNode
  | .print _ target => [target.toNode]
  | .read _ target => [.expr (.variable target)]
  | .assign _ target value => [.expr (.variable target), value.toNode]
  | .branch _ condition yes no => condition.toNode :: (blockNodes yes ++ blockNodes no)
  | .loop _ condition body => condition.toNode :: blockNodes body
  | .count _ _ _ lower upper body => lower.toNode :: upper.toNode :: blockNodes body
  | .ret _ value => [value.toNode]
  | .call _ _ args => args.map Expr.toNode

/-- The nodes right below a node. -/
def Node.children : Node → List Node
  | .program p => p.decls.map .decl ++ (p.functions.map .function ++ blockNodes p.body)
  | .decl d => d.vars.map .variable
  | .variable v => v.constant.toList.map fun c => .expr (.constant c)
  | .function f => f.params.map .decl ++ blockNodes f.body
  | .expr e => e.children
  | .stmt s => s.children
  | .call _ _ args => args.map Expr.toNode

/-- A node is the other one, or below it at some depth. -/
def Node.Part : Node → Node → Prop := Relation.ReflTransGen fun n m => m ∈ n.children

/-- The values right inside a value. -/
def Json.parts : Json → List Json
  | .array items => items
  | .object members => members.map fun m => m.2.2
  | _ => []

/-- A value is the other one, or inside it at some depth. -/
def Json.Within : Json → Json → Prop := Relation.ReflTransGen fun v w => w ∈ v.parts

/-! ### What fields make -/

/-- The nodes that fields can make: a case for each kind, with what has been read for it. -/
inductive Fields.Makes (f : Fields) : Node → Prop
  | program {scope : Option Table} {decls : List Decl} {functions : List Function}
      {body : Option Block} (kind : f.kind = "Program") (hscope : f.readScope = .ok scope)
      (hdecls : Child.declarations f.decls = .ok decls)
      (hfunctions : f.functions.mapM (Child.typed "Function" Node.toFunction?) = .ok functions)
      (hbody : Child.block f.body = .ok body) :
      Makes f
        (.program { loc := f.loc, name := f.name, file := f.file, scope, decls, functions, body })
  | decl {vars : List Variable} (kind : f.kind = "Decl")
      (hvars : f.vars.mapM (Child.typed "Variable" Node.toVariable?) = .ok vars) :
      Makes f (.decl { loc := f.loc, vars })
  | declared {type : Ty} {constant : Option Constant} (kind : f.kind = "Variable")
      (htype : f.readType = .ok type) (hconstant : ∀ c, constant = some c →
        ∃ child, f.constant = some child ∧ child.typed "ConstantValue" Node.toConstant? = .ok c) :
      Makes f (.variable { loc := f.loc, name := f.name, type, constant })
  | constant {type : Ty} {value : Int} (kind : f.kind = "ConstantValue")
      (htype : f.readType = .ok type) (hvalue : f.readLiteral = .ok value) :
      Makes f (.expr (.constant { loc := f.loc, type, value }))
  | function {scope : Option Table} {type : Option Ty} {params : List Decl} {body : Option Block}
      (kind : f.kind = "Function") (hscope : f.readScope = .ok scope)
      (htype : type = none ↔ f.type = "") (hparams : Child.declarations f.params = .ok params)
      (hbody : Child.block f.body = .ok body) :
      Makes f (.function { loc := f.loc, name := f.name, params, type, scope, body })
  | block {scope : Option Table} {decls : List Decl} {statements : List Stmt}
      (kind : f.kind = "CompoundStatement") (hscope : f.readScope = .ok scope)
      (hdecls : Child.declarations f.decls = .ok decls)
      (hstatements : f.statements.mapM Child.statement = .ok statements) :
      Makes f (.stmt (.block (.mk f.loc scope decls statements)))
  | print {target : Expr} (kind : f.kind = "Print")
      (htarget : Child.expression f.target = .ok target) :
      Makes f (.stmt (.print f.loc target))
  | read {target : Reference} (kind : f.kind = "Read")
      (htarget : Child.reference f.target = .ok target) :
      Makes f (.stmt (.read f.loc target))
  | assign {target : Reference} {value : Expr} (kind : f.kind = "Assignment")
      (htarget : Child.reference f.target = .ok target)
      (hvalue : Child.expression f.value = .ok value) :
      Makes f (.stmt (.assign f.loc target value))
  | binary {op : Operator} {left right : Expr} (kind : f.kind = "BinaryOp")
      (hop : f.readOperator = .ok op) (hleft : Child.expression f.left = .ok left)
      (hright : Child.expression f.right = .ok right) :
      Makes f (.expr (.binary f.loc op left right))
  | unary {op : Operator} {operand : Expr} (kind : f.kind = "UnaryOp") (hop : f.readUnary = .ok op)
      (hoperand : Child.expression f.operand = .ok operand) :
      Makes f (.expr (.unary f.loc op operand))
  | call {args : List Expr} (kind : f.kind = "Invocation")
      (hargs : f.args.mapM (fun c => Child.expression (some c)) = .ok args) :
      Makes f (.call f.loc f.name args)
  | reference (kind : f.kind = "VariableRef") :
      Makes f (.expr (.variable { loc := f.loc, name := f.name }))
  | branch {condition : Expr} {yes no : Option Block} (kind : f.kind = "If")
      (hcondition : Child.expression f.condition = .ok condition)
      (hyes : Child.block f.yes = .ok yes) (hno : Child.block f.no = .ok no) :
      Makes f (.stmt (.branch f.loc condition yes no))
  | loop {condition : Expr} {body : Option Block} (kind : f.kind = "While")
      (hcondition : Child.expression f.condition = .ok condition)
      (hbody : Child.block f.body = .ok body) :
      Makes f (.stmt (.loop f.loc condition body))
  | count {scope : Option Table} {lower upper : Expr} {body : Option Block} (kind : f.kind = "For")
      (hscope : f.readScope = .ok scope) (hlower : Child.expression f.lower = .ok lower)
      (hupper : Child.expression f.upper = .ok upper) (hbody : Child.block f.body = .ok body) :
      Makes f (.stmt (.count f.loc scope f.var lower upper body))
  | ret {value : Expr} (kind : f.kind = "Return") (hvalue : Child.expression f.value = .ok value) :
      Makes f (.stmt (.ret f.loc value))

theorem Fields.makes_variable {f : Fields} {v : Variable} (kind : f.kind = "Variable")
    (h : f.variableNode = .ok v) :
    f.Makes (.variable v) := by
  simp only [Fields.variableNode, ok_bind_iff] at h
  obtain ⟨type, htype, h⟩ := h
  split at h
  · simp only [ok_bind_iff, ok_pure_iff] at h
    obtain ⟨_, rfl, rfl⟩ := h
    exact .declared kind htype (by simp)
  · next child hchild =>
    split at h
    · simp only [ok_bind_iff, ok_pure_iff] at h
      obtain ⟨_, rfl, rfl⟩ := h
      exact .declared kind htype (by simp)
    · cases htyped : child.typed "ConstantValue" Node.toConstant? with
      | error e => rw [htyped] at h; cases h
      | ok c =>
        rw [htyped] at h
        cases h
        refine .declared kind htype fun c' hc' => ⟨child, hchild, ?_⟩
        rw [htyped, Option.some.inj hc']

theorem Fields.makes_function {f : Fields} {g : Function} (kind : f.kind = "Function")
    (h : f.functionNode = .ok g) :
    f.Makes (.function g) := by
  simp only [Fields.functionNode, ok_bind_iff] at h
  obtain ⟨scope, hscope, h⟩ := h
  split at h
  · next hempty =>
    simp only [ok_bind_iff, ok_pure_iff] at h
    obtain ⟨type, rfl, params, hparams, body, hbody, rfl⟩ := h
    exact .function kind hscope (iff_of_true rfl (String.isEmpty_iff.mp hempty)) hparams hbody
  · next hempty =>
    simp only [ok_bind_iff, ok_pure_iff] at h
    obtain ⟨type, htype, params, hparams, body, hbody, rfl⟩ := h
    refine .function kind hscope (iff_of_false ?_ fun h => hempty (String.isEmpty_iff.mpr h))
      hparams hbody
    cases hread : f.readType with
    | error e => rw [hread] at htype; cases htype
    | ok t => rw [hread] at htype; cases htype; exact Option.some_ne_none t

/-- **What fields make** is one of these nodes. -/
theorem Fields.makes_of_node {f : Fields} {n : Node} (h : f.node = .ok n) : f.Makes n := by
  unfold Fields.node at h
  split at h
  all_goals rename_i hkind
  all_goals simp only [ok_bind_iff, ok_pure_iff, ok_throw_iff] at h
  case h_1 =>
    obtain ⟨p, hp, rfl⟩ := h
    simp only [Fields.programNode, ok_bind_iff, ok_pure_iff] at hp
    obtain ⟨scope, hscope, decls, hdecls, functions, hfunctions, body, hbody, rfl⟩ := hp
    exact .program hkind hscope hdecls hfunctions hbody
  case h_2 => obtain ⟨vars, hvars, rfl⟩ := h; exact .decl hkind hvars
  case h_3 => obtain ⟨v, hv, rfl⟩ := h; exact makes_variable hkind hv
  case h_4 =>
    obtain ⟨c, hc, rfl⟩ := h
    simp only [Fields.constantNode, ok_bind_iff, ok_pure_iff] at hc
    obtain ⟨type, htype, value, hvalue, rfl⟩ := hc
    exact .constant hkind htype hvalue
  case h_5 => obtain ⟨g, hg, rfl⟩ := h; exact makes_function hkind hg
  case h_6 =>
    obtain ⟨b, hb, rfl⟩ := h
    simp only [Fields.blockNode, ok_bind_iff, ok_pure_iff] at hb
    obtain ⟨scope, hscope, decls, hdecls, statements, hstatements, rfl⟩ := hb
    exact .block hkind hscope hdecls hstatements
  case h_7 => obtain ⟨target, htarget, rfl⟩ := h; exact .print hkind htarget
  case h_8 => obtain ⟨target, htarget, rfl⟩ := h; exact .read hkind htarget
  case h_9 => obtain ⟨target, htarget, value, hvalue, rfl⟩ := h; exact .assign hkind htarget hvalue
  case h_10 =>
    obtain ⟨op, hop, left, hleft, right, hright, rfl⟩ := h
    exact .binary hkind hop hleft hright
  case h_11 => obtain ⟨op, hop, operand, hoperand, rfl⟩ := h; exact .unary hkind hop hoperand
  case h_12 => obtain ⟨args, hargs, rfl⟩ := h; exact .call hkind hargs
  case h_13 => cases h; exact .reference hkind
  case h_14 =>
    obtain ⟨condition, hcondition, yes, hyes, no, hno, rfl⟩ := h
    exact .branch hkind hcondition hyes hno
  case h_15 =>
    obtain ⟨condition, hcondition, body, hbody, rfl⟩ := h
    exact .loop hkind hcondition hbody
  case h_16 =>
    obtain ⟨s, hs, rfl⟩ := h
    simp only [Fields.countNode, ok_bind_iff, ok_pure_iff] at hs
    obtain ⟨scope, hscope, lower, hlower, upper, hupper, body, hbody, rfl⟩ := hs
    exact .count hkind hscope hlower hupper hbody
  case h_17 => obtain ⟨value, hvalue, rfl⟩ := h; exact .ret hkind hvalue

/-! ### Children and their values -/

/-- A child whose node is the one that its value describes. -/
def Child.Own (c : Child) : Prop := c.node = Node.ofJson c.json

theorem own_of_mem_ofItems {vs : List Json} {c : Child} (hc : c ∈ Child.ofItems vs) :
    c.json ∈ vs ∧ c.Own := by
  induction vs with
  | nil => exact absurd hc List.not_mem_nil
  | cons v vs ih =>
    rw [Child.ofItems] at hc
    rcases List.mem_cons.mp hc with rfl | hc
    · exact ⟨List.mem_cons_self, rfl⟩
    · exact (ih hc).imp_left (List.mem_cons_of_mem v)

theorem own_of_mem_itemsOf {v : Json} {c : Child} (hc : c ∈ Child.itemsOf v) :
    c.json ∈ v.parts ∧ c.Own := by
  unfold Child.itemsOf at hc
  split at hc
  · exact own_of_mem_ofItems hc
  · exact absurd hc List.not_mem_nil

/-- The children of an object are the values of its members and the items of these values. -/
theorem own_of_ofMembers : ∀ {members : List (String × Extent × Json)} {f f' : Fields} {c : Child},
    Fields.ofMembers f members = .ok f' → f'.Has c →
    f.Has c ∨ (∃ v ∈ Json.parts (.object members), c.json = v ∨ c.json ∈ v.parts) ∧ c.Own
  | [], f, f', c, h, hc => by cases h; exact .inl hc
  | (name, extent, v) :: members, f, f', c, h, hc => by
    rw [Fields.ofMembers, ok_bind_iff] at h
    obtain ⟨g, hg, h⟩ := h
    rcases own_of_ofMembers h hc with hc | ⟨⟨w, hw, hcw⟩, hown⟩
    · rcases has_of_set hg hc with hc | rfl | hc
      · exact .inl hc
      · exact .inr ⟨⟨v, List.mem_cons_self, .inl rfl⟩, rfl⟩
      · obtain ⟨hmem, hown⟩ := own_of_mem_itemsOf hc
        exact .inr ⟨⟨v, List.mem_cons_self, .inr hmem⟩, hown⟩
    · exact .inr ⟨⟨w, List.mem_cons_of_mem v hw, hcw⟩, hown⟩

/-- Only an object describes a node: fields that nothing has been put into make none. -/
theorem makes_of_ofJson {v : Json} {n : Node} (h : Node.ofJson v = .ok n) :
    ∃ members f, v = .object members ∧ Fields.ofMembers {} members = .ok f ∧ f.Makes n := by
  unfold Node.ofJson at h
  split at h
  · next members =>
    obtain ⟨f, hf, hnode⟩ := ok_bind_iff.mp h
    exact ⟨members, f, rfl, hf, Fields.makes_of_node hnode⟩
  · have hnone : Fields.node {} = .error (.noKind {}) := rfl
    rw [hnone] at h
    cases h
  · cases h

/-- The children of the fields of a value are inside the value, and their nodes are those of their
values. -/
theorem own_of_has {members : List (String × Extent × Json)} {f : Fields} {c : Child}
    (hf : Fields.ofMembers {} members = .ok f) (hc : f.Has c) :
    (Json.object members).Within c.json ∧ c.Own := by
  rcases own_of_ofMembers hf hc with hc | ⟨⟨v, hv, hcv⟩, hown⟩
  · simp [Fields.Has] at hc
  · refine ⟨?_, hown⟩
    have hwithin : (Json.object members).Within v := .single hv
    rcases hcv with rfl | hcv
    · exact hwithin
    · exact hwithin.tail hcv

/-! ### Children as nodes -/

theorem toNode_of_toExpr {v : Json} {n : Node} {e : Expr} (h : Node.ofJson v = .ok n)
    (he : n.toExpr? = some e) :
    n = e.toNode := by
  obtain ⟨members, f, -, -, hmakes⟩ := makes_of_ofJson h
  cases hmakes <;> cases he <;> rfl

theorem toNode_of_toStmt {v : Json} {n : Node} {s : Stmt} (h : Node.ofJson v = .ok n)
    (hs : n.toStmt? = some s) :
    n = s.toNode := by
  obtain ⟨members, f, -, -, hmakes⟩ := makes_of_ofJson h
  cases hmakes <;> cases hs <;> rfl

/-- A child in one of the fields describes a node. -/
def Fields.Describes (f : Fields) (n : Node) : Prop := ∃ c, f.Has c ∧ Node.ofJson c.json = .ok n

section

variable {f : Fields} (hown : ∀ c, f.Has c → c.Own)

include hown

theorem describes_of_typed {α : Type} {wanted : String} {view : Node → Option α} {g : α → Node}
    {c : Child} {a : α} (hview : ∀ n a, view n = some a → n = g a) (hc : f.Has c)
    (h : c.typed wanted view = .ok a) :
    f.Describes (g a) := by
  simp only [Child.typed, ok_bind_iff] at h
  obtain ⟨n, hn, h⟩ := h
  split at h
  · next a' ha' =>
    cases h
    refine ⟨c, hc, ?_⟩
    rw [← hown c hc, hn, hview n _ ha']
  · cases h

theorem describes_of_mapM {α : Type} {wanted : String} {view : Node → Option α} {g : α → Node}
    {cs : List Child} {as : List α} (hview : ∀ n a, view n = some a → n = g a)
    (hcs : ∀ c ∈ cs, f.Has c) (h : cs.mapM (Child.typed wanted view) = .ok as) :
    ∀ n ∈ as.map g, f.Describes n := by
  intro n hn
  obtain ⟨a, ha, rfl⟩ := List.mem_map.mp hn
  exact forall_of_mapM h (fun c hc a ha => describes_of_typed hown hview (hcs c hc) ha) a ha

theorem describes_of_expression {c : Option Child} {e : Expr} (hc : ∀ c', c = some c' → f.Has c')
    (h : Child.expression c = .ok e) : f.Describes e.toNode := by
  cases c with
  | none => cases h
  | some c =>
    simp only [Child.expression] at h
    split at h
    · cases h
    · simp only [ok_bind_iff] at h
      obtain ⟨n, hn, h⟩ := h
      split at h
      · next e' he' =>
        cases h
        rw [hown c (hc c rfl)] at hn
        exact ⟨c, hc c rfl, by rw [hn, toNode_of_toExpr hn he']⟩
      · cases h

theorem describes_of_reference {c : Option Child} {r : Reference}
    (hc : ∀ c', c = some c' → f.Has c') (h : Child.reference c = .ok r) :
    f.Describes (.expr (.variable r)) := by
  cases c with
  | none => cases h
  | some c =>
    simp only [Child.reference] at h
    split at h
    · cases h
    · refine describes_of_typed hown (g := fun r => .expr (.variable r)) (fun n a hn => ?_)
        (hc c rfl) h
      unfold Node.toReference? at hn
      split at hn <;> cases hn
      rfl

theorem describes_of_block {c : Option Child} {b : Option Block} (hc : ∀ c', c = some c' → f.Has c')
    (h : Child.block c = .ok b) : ∀ n ∈ blockNodes b, f.Describes n := by
  cases c with
  | none => cases h; exact fun _ hn => absurd hn List.not_mem_nil
  | some c =>
    simp only [Child.block] at h
    split at h
    · cases h; exact fun _ hn => absurd hn List.not_mem_nil
    · cases htyped : c.typed "CompoundStatement" Node.toBlock? with
      | error e => rw [htyped] at h; cases h
      | ok b' =>
        rw [htyped] at h
        cases h
        intro n hn
        obtain rfl := List.mem_singleton.mp hn
        refine describes_of_typed hown (g := fun b => .stmt (.block b)) (fun n a hn => ?_)
          (hc c rfl) htyped
        unfold Node.toBlock? at hn
        split at hn <;> cases hn
        rfl

theorem describes_of_statements {cs : List Child} {ss : List Stmt} (hcs : ∀ c ∈ cs, f.Has c)
    (h : cs.mapM Child.statement = .ok ss) : ∀ n ∈ ss.map Stmt.toNode, f.Describes n := by
  intro n hn
  obtain ⟨s, hs, rfl⟩ := List.mem_map.mp hn
  refine forall_of_mapM (P := fun s => f.Describes s.toNode) h (fun c hc s hs => ?_) s hs
  simp only [Child.statement, ok_bind_iff] at hs
  obtain ⟨n, hn, hs⟩ := hs
  split at hs
  · next s' hs' =>
    cases hs
    rw [hown c (hcs c hc)] at hn
    exact ⟨c, hcs c hc, by rw [hn, toNode_of_toStmt hn hs']⟩
  · cases hs

/-- **The nodes right below** what fields make are described by children of the fields. -/
theorem describes_of_makes {n : Node} (h : f.Makes n) : ∀ m ∈ n.children, f.Describes m := by
  have hexpr {c : Option Child} {e : Expr} (hc : ∀ c', c = some c' → f.Has c')
    (he : Child.expression c = .ok e) :
      f.Describes e.toNode := describes_of_expression hown hc he
  have hblock {c : Option Child} {b : Option Block} (hc : ∀ c', c = some c' → f.Has c')
      (hb : Child.block c = .ok b) : ∀ n ∈ blockNodes b, f.Describes n :=
      describes_of_block hown hc hb
  have hdecls {cs : List Child} {ds : List Decl} (hcs : ∀ c ∈ cs, f.Has c)
      (hds : Child.declarations cs = .ok ds) : ∀ n ∈ ds.map Node.decl, f.Describes n := by
    refine describes_of_mapM hown (fun n a hn => ?_) hcs hds
    unfold Node.toDecl? at hn
    split at hn <;> cases hn
    rfl
  cases h with
  | program kind hscope hds hfunctions hbody =>
    refine List.forall_mem_append.mpr ⟨hdecls (by grind [Fields.Has]) hds,
      List.forall_mem_append.mpr ⟨?_, hblock (by grind [Fields.Has]) hbody⟩⟩
    refine describes_of_mapM hown (fun n a hn => ?_) (by grind [Fields.Has]) hfunctions
    unfold Node.toFunction? at hn
    split at hn <;> cases hn
    rfl
  | decl kind hvars =>
    refine describes_of_mapM hown (fun n a hn => ?_) (by grind [Fields.Has]) hvars
    unfold Node.toVariable? at hn
    split at hn <;> cases hn
    rfl
  | declared kind htype hconstant =>
    intro m hm
    obtain ⟨c, hc, rfl⟩ := List.mem_map.mp hm
    obtain ⟨child, hchild, htyped⟩ := hconstant c (Option.mem_toList.mp hc)
    refine describes_of_typed hown (g := fun c => .expr (.constant c)) (fun n a hn => ?_)
      (by grind [Fields.Has]) htyped
    unfold Node.toConstant? at hn
    split at hn <;> cases hn
    rfl
  | function kind hscope htype hparams hbody =>
    exact List.forall_mem_append.mpr
      ⟨hdecls (by grind [Fields.Has]) hparams, hblock (by grind [Fields.Has]) hbody⟩
  | block kind hscope hds hstatements =>
    exact List.forall_mem_append.mpr ⟨hdecls (by grind [Fields.Has]) hds,
      describes_of_statements hown (by grind [Fields.Has]) hstatements⟩
  | print kind htarget =>
    exact List.forall_mem_singleton.mpr (hexpr (by grind [Fields.Has]) htarget)
  | read kind htarget =>
    exact List.forall_mem_singleton.mpr
      (describes_of_reference hown (by grind [Fields.Has]) htarget)
  | assign kind htarget hvalue =>
    exact List.forall_mem_cons.mpr ⟨describes_of_reference hown (by grind [Fields.Has]) htarget,
      List.forall_mem_singleton.mpr (hexpr (by grind [Fields.Has]) hvalue)⟩
  | binary kind hop hleft hright =>
    exact List.forall_mem_cons.mpr ⟨hexpr (by grind [Fields.Has]) hleft,
      List.forall_mem_singleton.mpr (hexpr (by grind [Fields.Has]) hright)⟩
  | unary kind hop hoperand =>
    exact List.forall_mem_singleton.mpr (hexpr (by grind [Fields.Has]) hoperand)
  | call kind hargs =>
    intro m hm
    obtain ⟨e, he, rfl⟩ := List.mem_map.mp hm
    exact forall_of_mapM (P := fun e => f.Describes e.toNode) hargs
      (fun c hc e he => hexpr (by grind [Fields.Has]) he) e he
  | branch kind hcondition hyes hno =>
    exact List.forall_mem_cons.mpr ⟨hexpr (by grind [Fields.Has]) hcondition,
      List.forall_mem_append.mpr
      ⟨hblock (by grind [Fields.Has]) hyes, hblock (by grind [Fields.Has]) hno⟩⟩
  | loop kind hcondition hbody =>
    exact List.forall_mem_cons.mpr
      ⟨hexpr (by grind [Fields.Has]) hcondition, hblock (by grind [Fields.Has]) hbody⟩
  | count kind hscope hlower hupper hbody =>
    exact List.forall_mem_cons.mpr ⟨hexpr (by grind [Fields.Has]) hlower, List.forall_mem_cons.mpr
      ⟨hexpr (by grind [Fields.Has]) hupper, hblock (by grind [Fields.Has]) hbody⟩⟩
  | ret kind hvalue => exact List.forall_mem_singleton.mpr (hexpr (by grind [Fields.Has]) hvalue)
  | constant => exact fun _ hm => absurd hm List.not_mem_nil
  | reference => exact fun _ hm => absurd hm List.not_mem_nil

end

/-! ### Trees and documents -/

/-- One level down: a node right below a node is described by a value within its value. -/
theorem exists_within_of_child {v : Json} {n m : Node} (h : Node.ofJson v = .ok n)
    (hm : m ∈ n.children) :
    ∃ w, v.Within w ∧ Node.ofJson w = .ok m := by
  obtain ⟨members, f, rfl, hf, hmakes⟩ := makes_of_ofJson h
  obtain ⟨c, hc, hnode⟩ := describes_of_makes (fun c hc => (own_of_has hf hc).2) hmakes m hm
  exact ⟨c.json, (own_of_has hf hc).1, hnode⟩

/-- **Each node of a tree** is described by a value of its document. -/
theorem exists_within_of_part {v : Json} {n m : Node} (h : Node.ofJson v = .ok n) (hm : n.Part m) :
    ∃ w, v.Within w ∧ Node.ofJson w = .ok m := by
  -- from the top down: each level is described by values one level further in
  induction hm with
  | refl => exact ⟨v, .refl, h⟩
  | tail _ hchild ih =>
    obtain ⟨w, hw, hnode⟩ := ih
    obtain ⟨w', hw', hnode'⟩ := exists_within_of_child hnode hchild
    exact ⟨w', hw.trans hw', hnode'⟩

end RvBackend
