import RvBackend.Proofs.Tree.Slots

/-! # What code depends on in a tree

The places of a tree that generation looks at, in the order in which it comes to them. A variable
comes with the names that are declared in the scopes around it, so whether it is declared can be
said of the place alone. Declarations are not among them: no code is made for them.

* `Function.occurrences` lists the places in a function.
* `Occurrence.Decoded`: what holds of each place in a tree that was read.
* `decoded_of_decode`: a program that was read has only such places. -/

namespace RvBackend

/-- A place of a tree that code depends on. -/
inductive Occurrence where
  | missing
  | literal (c : Constant)
  /-- A variable, and the names declared in the scopes around it. -/
  | variable (visible : List String) (name : String)
  | binary (loc : Location) (op : Operator)
  | unary (loc : Location) (op : Operator)
  | call (loc : Location) (callee : String) (count : ℕ)
  /-- The bounds of a `for` loop. -/
  | bounds (loc : Location) (lower upper : Expr)
  /-- The entries of a function, a block or a `for` loop. -/
  | scope (entries : List Entry)

/-- The names that a scope declares. -/
def Table.namesOf (t : Option Table) : List String := (Table.entriesOf t).map Entry.name

mutual

/-- The places in an expression. -/
def Expr.occurrences (visible : List String) : Expr → List Occurrence
  | .missing => [.missing]
  | .constant c => [.literal c]
  | .variable r => [.variable visible r.name]
  | .binary loc op left right => left.occurrences visible ++
      (right.occurrences visible ++ [.binary loc op])
  | .unary loc op operand => operand.occurrences visible ++ [.unary loc op]
  | .call loc callee args => .call loc callee args.length :: argumentsOccurrences visible args

/-- The places in arguments. -/
def argumentsOccurrences (visible : List String) : List Expr → List Occurrence
  | [] => []
  | e :: es => e.occurrences visible ++ argumentsOccurrences visible es

end

mutual

/-- The places in a statement. The bounds of a `for` loop stand outside its scope, its variable
inside. -/
def Stmt.occurrences (visible : List String) : Stmt → List Occurrence
  | .block b => b.occurrences visible
  | .print _ target => target.occurrences visible
  | .read _ target => [.variable visible target.name]
  | .assign _ target value => .variable visible target.name :: value.occurrences visible
  | .branch _ condition yes no =>
    condition.occurrences visible ++ (blockOccurrences visible yes ++ blockOccurrences visible no)
  | .loop _ condition body => condition.occurrences visible ++ blockOccurrences visible body
  | .count loc scope var lower upper body =>
    .bounds loc lower upper :: .scope (Table.entriesOf scope) ::
      .variable (Table.namesOf scope ++ visible) var :: blockOccurrences
      (Table.namesOf scope ++ visible) body
  | .ret _ value => value.occurrences visible
  | .call loc callee args => (Expr.call loc callee args).occurrences visible

/-- The places in a block. -/
def Block.occurrences (visible : List String) : Block → List Occurrence
  | .mk _ scope _ statements =>
    .scope (Table.entriesOf scope) :: statementsOccurrences (Table.namesOf scope ++ visible)
      statements

/-- The places in a block that may be missing. -/
def blockOccurrences (visible : List String) : Option Block → List Occurrence
  | none => []
  | some b => b.occurrences visible

/-- The places in statements. -/
def statementsOccurrences (visible : List String) : List Stmt → List Occurrence
  | [] => []
  | s :: ss => s.occurrences visible ++ statementsOccurrences visible ss

end

/-- The places in a function, among the names declared around it. -/
def Function.occurrences (visible : List String) (f : Function) : List Occurrence :=
  .scope (Table.entriesOf f.scope) :: blockOccurrences (Table.namesOf f.scope ++ visible) f.body

/-! ### Trees that were read -/

/-- A constant has its value. -/
def Entry.Decoded (e : Entry) : Prop := e.kind = .constant → e.value.isSome

/-- What holds of a place in a tree that was read: no expression is left out, a minus sign in front
of an operand is `neg`, and constants have their values. -/
def Occurrence.Decoded : Occurrence → Prop
  | .missing => False
  | .unary _ op => op ≠ .minus
  | .scope entries => ∀ e ∈ entries, e.Decoded
  | _ => True

/-- All of some places are such, whatever is declared around them. -/
def AllDecoded (places : List String → List Occurrence) : Prop :=
  ∀ visible, ∀ o ∈ places visible, o.Decoded

/-- All places in a program are such. -/
structure Program.Decoded (p : Program) : Prop where
  scope : ∀ e ∈ Table.entriesOf p.scope, e.Decoded
  functions : ∀ f ∈ p.functions, AllDecoded f.occurrences
  body : AllDecoded (blockOccurrences · p.body)

/-- All places in a node are such. Declarations have none. -/
def Node.Decoded : Node → Prop
  | .program p => p.Decoded
  | .function f => AllDecoded f.occurrences
  | .expr e => AllDecoded e.occurrences
  | .stmt s => AllDecoded s.occurrences
  | .call _ _ args => AllDecoded (argumentsOccurrences · args)
  | .decl _ => True
  | .variable _ => True

/-- The node of a child, if it has one, is such. -/
def Child.Decoded (c : Child) : Prop := ∀ node, c.node = .ok node → node.Decoded

theorem AllDecoded.append {xs ys : List String → List Occurrence} (h : AllDecoded xs)
    (h' : AllDecoded ys) :
    AllDecoded fun visible => xs visible ++ ys visible :=
  fun visible => List.forall_mem_append.mpr ⟨h visible, h' visible⟩

theorem AllDecoded.cons {o : List String → Occurrence} {xs : List String → List Occurrence}
    (ho : ∀ visible, (o visible).Decoded) (h : AllDecoded xs) :
    AllDecoded fun visible => o visible :: xs visible :=
  fun visible => List.forall_mem_cons.mpr ⟨ho visible, h visible⟩

theorem AllDecoded.nil : AllDecoded fun _ => [] := fun _ _ ho => absurd ho List.not_mem_nil

theorem allDecoded_arguments : ∀ {es : List Expr}, (∀ e ∈ es, AllDecoded e.occurrences) →
    AllDecoded (argumentsOccurrences · es)
  | [], _ => .nil
  | _ :: _, h =>
    have ⟨he, hes⟩ := List.forall_mem_cons.mp h
    he.append (allDecoded_arguments hes)

theorem allDecoded_statements : ∀ {ss : List Stmt}, (∀ s ∈ ss, AllDecoded s.occurrences) →
    AllDecoded (statementsOccurrences · ss)
  | [], _ => .nil
  | _ :: _, h =>
    have ⟨hs, hss⟩ := List.forall_mem_cons.mp h
    hs.append (allDecoded_statements hss)

/-! ### Children -/

namespace Child

variable {α : Type} {c : Child}

theorem Decoded.typed {wanted : String} {view : Node → Option α} {a : α} (hc : c.Decoded)
    (h : c.typed wanted view = .ok a) : ∃ node, node.Decoded ∧ view node = some a := by
  simp only [Child.typed, ok_bind_iff] at h
  obtain ⟨node, hnode, h⟩ := h
  split at h
  · next a' hview =>
    cases h
    exact ⟨node, hc node hnode, hview⟩
  · cases h

theorem allDecoded_toExpr {node : Node} {e : Expr} (hnode : node.Decoded)
    (h : node.toExpr? = some e) :
    AllDecoded e.occurrences := by
  cases node with
  | expr e' => cases h; exact hnode
  | call loc callee args => cases h; exact AllDecoded.cons (fun _ => trivial) hnode
  | _ => cases h

theorem allDecoded_toStmt {node : Node} {s : Stmt} (hnode : node.Decoded)
    (h : node.toStmt? = some s) :
    AllDecoded s.occurrences := by
  cases node with
  | stmt s' => cases h; exact hnode
  | call loc callee args => cases h; exact AllDecoded.cons (fun _ => trivial) hnode
  | _ => cases h

theorem Decoded.expression {c : Option Child} {e : Expr} (hc : ∀ c', c = some c' → c'.Decoded)
    (h : Child.expression c = .ok e) : AllDecoded e.occurrences := by
  cases c with
  | none => cases h
  | some c =>
    simp only [Child.expression] at h
    split at h
    · cases h
    · simp only [ok_bind_iff] at h
      obtain ⟨node, hnode, h⟩ := h
      split at h
      · next e' hview =>
        cases h
        exact allDecoded_toExpr (hc c rfl node hnode) hview
      · cases h

theorem Decoded.block {c : Option Child} {b : Option Block} (hc : ∀ c', c = some c' → c'.Decoded)
    (h : Child.block c = .ok b) : AllDecoded (blockOccurrences · b) := by
  cases c with
  | none => cases h; exact .nil
  | some c =>
    simp only [Child.block] at h
    split at h
    · cases h; exact .nil
    · cases htyped : c.typed "CompoundStatement" Node.toBlock? with
      | error e => rw [htyped] at h; cases h
      | ok b' =>
        rw [htyped] at h
        cases h
        obtain ⟨node, hnode, hview⟩ := (hc c rfl).typed htyped
        unfold Node.toBlock? at hview
        split at hview
        · cases hview; exact hnode
        · cases hview

theorem Decoded.statement {s : Stmt} (hc : c.Decoded) (h : c.statement = .ok s) :
    AllDecoded s.occurrences := by
  simp only [Child.statement, ok_bind_iff] at h
  obtain ⟨node, hnode, h⟩ := h
  split at h
  · next s' hview =>
    cases h
    exact allDecoded_toStmt (hc node hnode) hview
  · cases h

end Child

/-! ### Fields -/

/-- A child is in one of the fields of a node. -/
def Fields.Has (f : Fields) (x : Child) : Prop :=
  x ∈ f.decls ∨ x ∈ f.functions ∨ x ∈ f.vars ∨ x ∈ f.params ∨ x ∈ f.statements ∨ x ∈ f.args ∨
    f.value = some x ∨ f.body = some x ∨ f.constant = some x ∨ f.target = some x ∨ f.left = some x ∨
    f.right = some x ∨ f.operand = some x ∨ f.condition = some x ∨ f.yes = some x ∨ f.no = some x ∨
    f.lower = some x ∨ f.upper = some x

/-- A member of a node brings in its own value, or the items of it, and no other child. -/
theorem has_of_set {f f' : Fields} {name : String} {c x : Child} {items : List Child}
    (h : f.set name c items = .ok f') (hx : f'.Has x) : f.Has x ∨ x = c ∨ x ∈ items := by
  have hitems : ∀ {xs : List Child}, Fields.readItems items c.json = .ok xs → ∀ x ∈ xs,
      x ∈ items := by
    intro xs hxs
    unfold Fields.readItems at hxs
    split at hxs
    · cases hxs; exact fun _ hx => hx
    · cases hxs; exact fun _ hx => absurd hx List.not_mem_nil
    · cases hxs
  unfold Fields.set at h
  unfold Fields.Has at hx ⊢
  -- a member sets one field at most, to its value or to the items of it
  split at h
  all_goals
    simp only [ok_bind_iff, ok_pure_iff] at h
    grind

theorem decoded_of_entryFields {fields : EntryFields} {e : Entry} (h : fields.entry = .ok e) :
    e.Decoded := by
  simp only [EntryFields.entry, ok_bind_iff] at h
  obtain ⟨type, -, h⟩ := h
  split at h
  · cases h; intro hkind; cases hkind
  · cases h; intro hkind; cases hkind
  · split at h
    · cases h
    · cases h; exact fun _ => rfl
  · cases h

theorem ne_minus_of_readUnary {f : Fields} {op : Operator} (h : f.readUnary = .ok op) :
    op ≠ .minus := by
  simp only [Fields.readUnary, ok_bind_iff, ok_pure_iff] at h
  obtain ⟨op', -, rfl⟩ := h
  split
  · simp
  · assumption

section

variable {f : Fields} (hf : ∀ c, f.Has c → c.Decoded)

include hf

theorem decoded_programNode {p : Program} (h : f.programNode = .ok p) : p.Decoded := by
  simp only [Fields.programNode, ok_bind_iff, ok_pure_iff] at h
  obtain ⟨scope, hscope, decls, -, functions, hfunctions, body, hbody, rfl⟩ := h
  refine ⟨forall_of_readScope hscope decoded_of_entryFields, ?_, ?_⟩
  · refine forall_of_mapM hfunctions fun c hc g hg => ?_
    obtain ⟨node, hnode, hview⟩ := (hf c (by simp [Fields.Has, hc])).typed hg
    unfold Node.toFunction? at hview
    split at hview
    · cases hview; exact hnode
    · cases hview
  · exact Child.Decoded.block (fun c hc => hf c (by grind [Fields.Has])) hbody

theorem decoded_functionNode {g : Function} (h : f.functionNode = .ok g) :
    AllDecoded g.occurrences := by
  simp only [Fields.functionNode, ok_bind_iff] at h
  obtain ⟨scope, hscope, h⟩ := h
  -- the type is of no account
  obtain ⟨body, hbody, hscope', hbody'⟩ : ∃ body, Child.block f.body = .ok body ∧ g.scope = scope ∧
      g.body = body := by
    split at h
    all_goals
      simp only [ok_bind_iff, ok_pure_iff] at h
      obtain ⟨_, -, _, -, body, hbody, rfl⟩ := h
      exact ⟨body, hbody, rfl, rfl⟩
  have hbody := Child.Decoded.block (fun c hc => hf c (by grind [Fields.Has])) hbody
  unfold Function.occurrences
  rw [hscope', hbody']
  exact .cons (fun _ => forall_of_readScope hscope decoded_of_entryFields) fun visible => hbody _

theorem decoded_blockNode {b : Block} (h : f.blockNode = .ok b) : AllDecoded b.occurrences := by
  simp only [Fields.blockNode, ok_bind_iff, ok_pure_iff] at h
  obtain ⟨scope, hscope, decls, -, statements, hstatements, rfl⟩ := h
  have hss := allDecoded_statements (forall_of_mapM hstatements fun c hc s hs =>
    (hf c (by simp [Fields.Has, hc])).statement hs)
  exact .cons (fun _ => forall_of_readScope hscope decoded_of_entryFields) fun visible => hss _

theorem decoded_countNode {s : Stmt} (h : f.countNode = .ok s) : AllDecoded s.occurrences := by
  simp only [Fields.countNode, ok_bind_iff, ok_pure_iff] at h
  obtain ⟨scope, hscope, lower, -, upper, -, body, hbody, rfl⟩ := h
  have hbody := Child.Decoded.block (fun c hc => hf c (by grind [Fields.Has])) hbody
  refine .cons (fun _ => trivial)
    (.cons (fun _ => forall_of_readScope hscope decoded_of_entryFields) ?_)
  exact .cons (fun _ => trivial) fun visible => hbody _

/-- **The node of some fields is as its children are.** -/
theorem decoded_node {node : Node} (h : f.node = .ok node) : node.Decoded := by
  have hexpr : ∀ {c : Option Child} {e : Expr}, (∀ c', c = some c' → f.Has c') →
    Child.expression c = .ok e →
      AllDecoded e.occurrences := fun hc => Child.Decoded.expression fun c' hc' => hf c' (hc c' hc')
  have hblock : ∀ {c : Option Child} {b : Option Block}, (∀ c', c = some c' → f.Has c') →
    Child.block c = .ok b →
      AllDecoded (blockOccurrences · b) :=
      fun hc => Child.Decoded.block fun c' hc' => hf c' (hc c' hc')
  unfold Fields.node at h
  split at h
  all_goals simp only [ok_bind_iff, ok_pure_iff, ok_throw_iff] at h
  case h_1 => obtain ⟨p, hp, rfl⟩ := h; exact decoded_programNode hf hp
  case h_2 => obtain ⟨_, -, rfl⟩ := h; trivial
  case h_3 => obtain ⟨_, -, rfl⟩ := h; trivial
  case h_4 => obtain ⟨_, -, rfl⟩ := h; exact .cons (fun _ => trivial) .nil
  case h_5 => obtain ⟨g, hg, rfl⟩ := h; exact decoded_functionNode hf hg
  case h_6 => obtain ⟨b, hb, rfl⟩ := h; exact decoded_blockNode hf hb
  case h_7 => obtain ⟨e, he, rfl⟩ := h; exact hexpr (by grind [Fields.Has]) he
  case h_8 => obtain ⟨_, -, rfl⟩ := h; exact .cons (fun _ => trivial) .nil
  case h_9 =>
    obtain ⟨_, -, e, he, rfl⟩ := h
    exact .cons (fun _ => trivial) (hexpr (by grind [Fields.Has]) he)
  case h_10 =>
    obtain ⟨op, -, left, hleft, right, hright, rfl⟩ := h
    exact (hexpr (by grind [Fields.Has]) hleft).append
      ((hexpr (by grind [Fields.Has]) hright).append (.cons (fun _ => trivial) .nil))
  case h_11 =>
    obtain ⟨op, hop, operand, hoperand, rfl⟩ := h
    exact (hexpr (by grind [Fields.Has]) hoperand).append
      (.cons (fun _ => ne_minus_of_readUnary hop) .nil)
  case h_12 =>
    obtain ⟨args, hargs, rfl⟩ := h
    exact allDecoded_arguments
      (forall_of_mapM hargs fun c hc e he => hexpr (by grind [Fields.Has]) he)
  case h_13 => cases h; exact .cons (fun _ => trivial) .nil
  case h_14 =>
    obtain ⟨condition, hcondition, yes, hyes, no, hno, rfl⟩ := h
    exact (hexpr (by grind [Fields.Has]) hcondition).append
      ((hblock (by grind [Fields.Has]) hyes).append (hblock (by grind [Fields.Has]) hno))
  case h_15 =>
    obtain ⟨condition, hcondition, body, hbody, rfl⟩ := h
    exact (hexpr (by grind [Fields.Has]) hcondition).append (hblock (by grind [Fields.Has]) hbody)
  case h_16 => obtain ⟨s, hs, rfl⟩ := h; exact decoded_countNode hf hs
  case h_17 => obtain ⟨e, he, rfl⟩ := h; exact hexpr (by grind [Fields.Has]) he

end

/-! ### Values -/

mutual

theorem decoded_ofJson : ∀ {v : Json} {node : Node}, Node.ofJson v = .ok node → node.Decoded
  | .object members, node, h => by
    obtain ⟨f, hf, hnode⟩ := ok_bind_iff.mp h
    exact decoded_node (decoded_ofMembers (by simp [Fields.Has]) hf) hnode
  | .null, node, h => decoded_node (f := {}) (by simp [Fields.Has]) h
  | .bool _, _, h => nomatch h
  | .number _, _, h => nomatch h
  | .string _, _, h => nomatch h
  | .array _, _, h => nomatch h

theorem decoded_ofMembers : ∀ {members : List (String × Extent × Json)} {f f' : Fields},
    (∀ c, f.Has c → c.Decoded) → Fields.ofMembers f members = .ok f' → ∀ c, f'.Has c → c.Decoded
  | [], f, f', hf, h => by cases h; exact hf
  | (name, extent, v) :: members, f, f', hf, h => by
    rw [Fields.ofMembers, ok_bind_iff] at h
    obtain ⟨g, hg, h⟩ := h
    refine decoded_ofMembers (fun c hc => ?_) h
    rcases has_of_set hg hc with hc | rfl | hc
    · exact hf c hc
    · exact fun node hnode => decoded_ofJson hnode
    · exact decoded_itemsOf c hc

theorem decoded_itemsOf : ∀ {v : Json}, ∀ c ∈ Child.itemsOf v, c.Decoded
  | .array _, c, hc => decoded_ofItems c hc
  | .object _, _, hc => absurd hc List.not_mem_nil
  | .null, _, hc => absurd hc List.not_mem_nil
  | .bool _, _, hc => absurd hc List.not_mem_nil
  | .number _, _, hc => absurd hc List.not_mem_nil
  | .string _, _, hc => absurd hc List.not_mem_nil

theorem decoded_ofItems : ∀ {vs : List Json}, ∀ c ∈ Child.ofItems vs, c.Decoded
  | [], _, hc => absurd hc List.not_mem_nil
  | v :: vs, c, hc => by
    rw [Child.ofItems] at hc
    rcases List.mem_cons.mp hc with rfl | hc
    · exact fun node hnode => decoded_ofJson hnode
    · exact decoded_ofItems c hc

end

/-- **All places in a program that was read** are such. -/
theorem decoded_of_decode {bytes : List UInt8} {p : Program} (h : Program.decode bytes = .ok p) :
    p.Decoded := by
  unfold Program.decode Program.ofText at h
  split at h
  · cases h
  · next v _ =>
    rw [ok_bind_iff] at h
    obtain ⟨node, hnode, h⟩ := h
    split at h
    · cases h; exact decoded_ofJson hnode
    · cases h

end RvBackend
