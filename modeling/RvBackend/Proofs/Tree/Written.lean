import RvBackend.Proofs.Json.Document
import RvBackend.Proofs.Text.Pieces
import RvBackend.Tree.Decode

/-! # Trees as documents

The document of a tree has a record for each of its nodes, with the node's kind, the place where it
stands and its parts. A part that a node may lack, a scope for instance, has no member if it is
lacking.

* `Program.document` is the document of a whole program.
* `Program.Written`: what a program has to be like for its document to say all of it. No expression
  is left out, the operators and the types are those that have a name, integers have 64 bits and no
  slots are given yet.
* `Program.resolved`: the program with the predeclared types wherever a type has the name of one. A
  document holds names of types, so it cannot tell a program from this one. A program whose types
  are all those of their names is its own resolved program (`Program.resolved_eq_self`). -/

namespace RvBackend

open Json (Document)

/-! ### Documents -/

/-- The members that are there. -/
def present : List (String × Option Document) → List (String × Document)
  | [] => []
  | (_, none) :: fields => present fields
  | (name, some d) :: fields => (name, d) :: present fields

/-- The document of a place. -/
def Location.document (l : Location) : Document :=
  .record [("line", .integer l.line), ("col", .integer l.col)]

/-- The document of a node from its kind, its place and the parts it may have. -/
def nodeDocument (kind : String) (loc : Location) (fields : List (String × Option Document)) :
    Document :=
  .record (("kind", .text kind) :: ("loc", loc.document) :: present fields)

/-- The document of a declared name. -/
def Entry.document (e : Entry) : Document :=
  .record (present [("name", some (.text e.name)), ("kind", some (.text e.kind.text)),
    ("type", some (.text e.type.text)), ("level", some (.integer e.level)),
    ("value", e.value.map .integer)])

/-- The document of a scope, if there is one. -/
def Table.document? (t : Option Table) : Option Document :=
  t.map fun t => .list (t.entries.map Entry.document)

/-- The document of a literal. -/
def Constant.document (c : Constant) : Document :=
  nodeDocument "ConstantValue" c.loc
    [("type", some (.text c.type.text)), ("value", some (.integer c.value))]

/-- The document of a variable where it is used. -/
def Reference.document (r : Reference) : Document :=
  nodeDocument "VariableRef" r.loc [("name", some (.text r.name))]

/-- The document of a declared variable. -/
def Variable.document (v : Variable) : Document :=
  nodeDocument "Variable" v.loc [("name", some (.text v.name)), ("type", some (.text v.type.text)),
    ("constant", v.constant.map Constant.document)]

/-- The document of a declaration. -/
def Decl.document (d : Decl) : Document :=
  nodeDocument "Decl" d.loc [("variables", some (.list (d.vars.map Variable.document)))]

/-- The document of a call. -/
def callDocument (loc : Location) (callee : String) (args : List Document) : Document :=
  nodeDocument "Invocation" loc [("name", some (.text callee)), ("args", some (.list args))]

mutual

/-- The document of an expression. One that was left out has none. -/
def Expr.document : Expr → Document
  | .missing => .record []
  | .constant c => c.document
  | .variable r => r.document
  | .binary loc op left right => nodeDocument "BinaryOp" loc
      [("op", some (.text op.text)), ("left", some left.document), ("right", some right.document)]
  | .unary loc op operand => nodeDocument "UnaryOp" loc
      [("op", some (.text op.text)), ("operand", some operand.document)]
  | .call loc callee args => callDocument loc callee (argumentDocuments args)

/-- The documents of arguments. -/
def argumentDocuments : List Expr → List Document
  | [] => []
  | e :: es => e.document :: argumentDocuments es

end

mutual

/-- The document of a statement. -/
def Stmt.document : Stmt → Document
  | .block b => b.document
  | .print loc target => nodeDocument "Print" loc [("target", some target.document)]
  | .read loc target => nodeDocument "Read" loc [("target", some target.document)]
  | .assign loc target value => nodeDocument "Assignment" loc
      [("target", some target.document), ("value", some value.document)]
  | .branch loc condition yes no => nodeDocument "If" loc
      [("condition", some condition.document), ("then", blockDocument? yes),
        ("else", blockDocument? no)]
  | .loop loc condition body => nodeDocument "While" loc
      [("condition", some condition.document), ("body", blockDocument? body)]
  | .count loc scope var lower upper body => nodeDocument "For" loc
      [("scope", Table.document? scope), ("var", some (.text var)), ("lower", some lower.document),
        ("upper", some upper.document), ("body", blockDocument? body)]
  | .ret loc value => nodeDocument "Return" loc [("value", some value.document)]
  | .call loc callee args => callDocument loc callee (argumentDocuments args)

/-- The document of a block. -/
def Block.document : Block → Document
  | .mk loc scope decls statements => nodeDocument "CompoundStatement" loc
      [("scope", Table.document? scope), ("decls", some (.list (decls.map Decl.document))),
        ("statements", some (.list (statementDocuments statements)))]

/-- The document of a block, if there is one. -/
def blockDocument? : Option Block → Option Document
  | none => none
  | some b => some b.document

/-- The documents of statements. -/
def statementDocuments : List Stmt → List Document
  | [] => []
  | s :: ss => s.document :: statementDocuments ss

end

/-- The document of a function. -/
def Function.document (f : Function) : Document :=
  nodeDocument "Function" f.loc
    [("name", some (.text f.name)), ("type", (f.type.map Ty.text).map .text),
      ("scope", Table.document? f.scope), ("params", some (.list (f.params.map Decl.document))),
      ("body", blockDocument? f.body)]

/-- The document of a program. -/
def Program.document (p : Program) : Document :=
  nodeDocument "Program" p.loc [("name", some (.text p.name)), ("file", some (.text p.file)),
    ("scope", Table.document? p.scope), ("decls", some (.list (p.decls.map Decl.document))),
    ("functions", some (.list (p.functions.map Function.document))),
    ("body", blockDocument? p.body)]

/-! ### What a document can say -/

/-- An integer of 64 bits. -/
abbrev InInt64 (n : ℤ) : Prop := Text.inWord 64 n = true

/-- Both numbers of the place have 64 bits. -/
def Location.Written (l : Location) : Prop := InInt64 l.line ∧ InInt64 l.col

/-- A type with a name that has no bracket in it. -/
def Ty.IsBase : Ty → Prop
  | .predeclared _ => True
  | .named name => name ≠ "" ∧ '[' ∉ name.toList
  | .array .. => False

/-- A base type, or an array of a base type with at least one size. -/
def Ty.Written : Ty → Prop
  | .predeclared _ => True
  | .named name => (Ty.named name).IsBase
  | .array element sizes => element.IsBase ∧ sizes ≠ [] ∧ ∀ n ∈ sizes, InInt64 n

/-- A variable, a parameter or a constant; constants, and no others, have values. -/
def Entry.Written (e : Entry) : Prop :=
  e.type.Written ∧ InInt64 e.level ∧ e.slot = 0 ∧ e.kind ∈ [.variable, .constant, .parameter] ∧
    (e.value.isSome ↔ e.kind = .constant) ∧ ∀ v ∈ e.value, InInt64 v

/-- All entries of a scope are such. -/
def Table.Written (t : Option Table) : Prop := ∀ e ∈ Table.entriesOf t, e.Written

/-- A literal of 64 bits. -/
def Constant.Written (c : Constant) : Prop := c.loc.Written ∧ c.type.Written ∧ InInt64 c.value

/-- A declared variable whose type and value can be said. -/
def Variable.Written (v : Variable) : Prop :=
  v.loc.Written ∧ v.type.Written ∧ ∀ c ∈ v.constant, c.Written

/-- All variables of a declaration are such. -/
def Decl.Written (d : Decl) : Prop := d.loc.Written ∧ ∀ v ∈ d.vars, v.Written

mutual

/-- No expression is left out, and each operator has a name; a minus sign in front of an operand is
`neg`. -/
def Expr.Written : Expr → Prop
  | .missing => False
  | .constant c => c.Written
  | .variable r => r.loc.Written
  | .binary loc op left right => loc.Written ∧ op ∈ Operator.all ∧ left.Written ∧ right.Written
  | .unary loc op operand => loc.Written ∧ op ∈ Operator.all ∧ op ≠ .minus ∧ operand.Written
  | .call loc _ args => loc.Written ∧ ArgumentsWritten args

/-- All arguments are such. -/
def ArgumentsWritten : List Expr → Prop
  | [] => True
  | e :: es => e.Written ∧ ArgumentsWritten es

end

mutual

/-- All that a statement consists of can be said. -/
def Stmt.Written : Stmt → Prop
  | .block b => b.Written
  | .print loc target => loc.Written ∧ target.Written
  | .read loc target => loc.Written ∧ target.loc.Written
  | .assign loc target value => loc.Written ∧ target.loc.Written ∧ value.Written
  | .branch loc condition yes no => loc.Written ∧ condition.Written ∧ BlockWritten yes ∧
      BlockWritten no
  | .loop loc condition body => loc.Written ∧ condition.Written ∧ BlockWritten body
  | .count loc scope _ lower upper body =>
    loc.Written ∧ Table.Written scope ∧ lower.Written ∧ upper.Written ∧ BlockWritten body
  | .ret loc value => loc.Written ∧ value.Written
  | .call loc _ args => loc.Written ∧ ArgumentsWritten args

/-- All that a block consists of can be said. -/
def Block.Written : Block → Prop
  | .mk loc scope decls statements =>
    loc.Written ∧ Table.Written scope ∧ (∀ d ∈ decls, d.Written) ∧ StatementsWritten statements

/-- The block is such, if there is one. -/
def BlockWritten : Option Block → Prop
  | none => True
  | some b => b.Written

/-- All statements are such. -/
def StatementsWritten : List Stmt → Prop
  | [] => True
  | s :: ss => s.Written ∧ StatementsWritten ss

end

/-- All that a function consists of can be said. -/
@[mk_iff written_iff]
structure Function.Written (f : Function) : Prop where
  loc : f.loc.Written
  type : ∀ t ∈ f.type, t.Written
  scope : Table.Written f.scope
  params : ∀ d ∈ f.params, d.Written
  body : BlockWritten f.body

/-- All that a program consists of can be said. -/
@[mk_iff written_iff]
structure Program.Written (p : Program) : Prop where
  loc : p.loc.Written
  scope : Table.Written p.scope
  decls : ∀ d ∈ p.decls, d.Written
  functions : ∀ f ∈ p.functions, f.Written
  body : BlockWritten p.body

instance decidableLocationWritten (l : Location) : Decidable l.Written :=
  inferInstanceAs (Decidable (_ ∧ _))

instance decidableIsBase : ∀ t : Ty, Decidable t.IsBase
  | .predeclared _ => inferInstanceAs (Decidable True)
  | .named _ => inferInstanceAs (Decidable (_ ∧ _))
  | .array .. => inferInstanceAs (Decidable False)

instance decidableTyWritten : ∀ t : Ty, Decidable t.Written
  | .predeclared _ => inferInstanceAs (Decidable True)
  | .named name => decidableIsBase (.named name)
  | .array _ _ => inferInstanceAs (Decidable (_ ∧ _ ∧ _))

instance decidableEntryWritten (e : Entry) : Decidable e.Written :=
  inferInstanceAs (Decidable (_ ∧ _ ∧ _ ∧ _ ∧ _ ∧ _))

instance decidableTableWritten (t : Option Table) : Decidable (Table.Written t) :=
  inferInstanceAs (Decidable (∀ e ∈ Table.entriesOf t, e.Written))

instance decidableConstantWritten (c : Constant) : Decidable c.Written :=
  inferInstanceAs (Decidable (_ ∧ _ ∧ _))

instance decidableVariableWritten (v : Variable) : Decidable v.Written :=
  inferInstanceAs (Decidable (_ ∧ _ ∧ _))

instance decidableDeclWritten (d : Decl) : Decidable d.Written :=
  inferInstanceAs (Decidable (_ ∧ _))

mutual

instance decidableExprWritten : ∀ e : Expr, Decidable e.Written
  | .missing => inferInstanceAs (Decidable False)
  | .constant c => decidableConstantWritten c
  | .variable r => decidableLocationWritten r.loc
  | .binary _ _ left right =>
    letI := decidableExprWritten left
    letI := decidableExprWritten right
    inferInstanceAs (Decidable (_ ∧ _ ∧ _ ∧ _))
  | .unary _ _ operand =>
    letI := decidableExprWritten operand
    inferInstanceAs (Decidable (_ ∧ _ ∧ _ ∧ _))
  | .call _ _ args =>
    letI := decidableArgumentsWritten args
    inferInstanceAs (Decidable (_ ∧ _))

instance decidableArgumentsWritten : ∀ es : List Expr, Decidable (ArgumentsWritten es)
  | [] => inferInstanceAs (Decidable True)
  | e :: es =>
    letI := decidableExprWritten e
    letI := decidableArgumentsWritten es
    inferInstanceAs (Decidable (_ ∧ _))

end

mutual

instance decidableStmtWritten : ∀ s : Stmt, Decidable s.Written
  | .block b => decidableBlockWritten b
  | .print .. => inferInstanceAs (Decidable (_ ∧ _))
  | .read .. => inferInstanceAs (Decidable (_ ∧ _))
  | .assign .. => inferInstanceAs (Decidable (_ ∧ _ ∧ _))
  | .branch _ _ yes no =>
    letI := decidableOptionWritten yes
    letI := decidableOptionWritten no
    inferInstanceAs (Decidable (_ ∧ _ ∧ _ ∧ _))
  | .loop _ _ body =>
    letI := decidableOptionWritten body
    inferInstanceAs (Decidable (_ ∧ _ ∧ _))
  | .count _ _ _ _ _ body =>
    letI := decidableOptionWritten body
    inferInstanceAs (Decidable (_ ∧ _ ∧ _ ∧ _ ∧ _))
  | .ret .. => inferInstanceAs (Decidable (_ ∧ _))
  | .call .. => inferInstanceAs (Decidable (_ ∧ _))

instance decidableBlockWritten : ∀ b : Block, Decidable b.Written
  | .mk _ _ _ statements =>
    letI := decidableStatementsWritten statements
    inferInstanceAs (Decidable (_ ∧ _ ∧ _ ∧ _))

instance decidableOptionWritten : ∀ b : Option Block, Decidable (BlockWritten b)
  | none => inferInstanceAs (Decidable True)
  | some b => decidableBlockWritten b

instance decidableStatementsWritten : ∀ ss : List Stmt, Decidable (StatementsWritten ss)
  | [] => inferInstanceAs (Decidable True)
  | s :: ss =>
    letI := decidableStmtWritten s
    letI := decidableStatementsWritten ss
    inferInstanceAs (Decidable (_ ∧ _))

end

instance decidableFunctionWritten (f : Function) : Decidable f.Written :=
  decidable_of_iff (_ ∧ _ ∧ _ ∧ _ ∧ _) (Function.written_iff f).symm

instance decidableProgramWritten (p : Program) : Decidable p.Written :=
  decidable_of_iff (_ ∧ _ ∧ _ ∧ _ ∧ _) (Program.written_iff p).symm

/-! ### Types by their names -/

/-- The type that has the name of a type: a predeclared one if there is one of that name. -/
def Ty.resolved : Ty → Ty
  | .predeclared p => .predeclared p
  | .named name => Ty.ofName name
  | .array element sizes => .array element.resolved sizes

/-- The entry with its type resolved. -/
def Entry.resolved (e : Entry) : Entry := { e with type := e.type.resolved }

/-- The scope with the types of its entries resolved. -/
def Table.resolved (t : Option Table) : Option Table :=
  t.map fun t => ⟨t.entries.map Entry.resolved⟩

/-- The literal with its type resolved. -/
def Constant.resolved (c : Constant) : Constant := { c with type := c.type.resolved }

/-- The declared variable with its types resolved. -/
def Variable.resolved (v : Variable) : Variable :=
  { v with type := v.type.resolved, constant := v.constant.map Constant.resolved }

/-- The declaration with its types resolved. -/
def Decl.resolved (d : Decl) : Decl := { d with vars := d.vars.map Variable.resolved }

mutual

/-- The expression with its types resolved. -/
def Expr.resolved : Expr → Expr
  | .missing => .missing
  | .constant c => .constant c.resolved
  | .variable r => .variable r
  | .binary loc op left right => .binary loc op left.resolved right.resolved
  | .unary loc op operand => .unary loc op operand.resolved
  | .call loc callee args => .call loc callee (resolvedArguments args)

/-- The arguments with their types resolved. -/
def resolvedArguments : List Expr → List Expr
  | [] => []
  | e :: es => e.resolved :: resolvedArguments es

end

mutual

/-- The statement with its types resolved. -/
def Stmt.resolved : Stmt → Stmt
  | .block b => .block b.resolved
  | .print loc target => .print loc target.resolved
  | .read loc target => .read loc target
  | .assign loc target value => .assign loc target value.resolved
  | .branch loc condition yes no => .branch loc condition.resolved (resolvedBlock yes)
      (resolvedBlock no)
  | .loop loc condition body => .loop loc condition.resolved (resolvedBlock body)
  | .count loc scope var lower upper body =>
    .count loc (Table.resolved scope) var lower.resolved upper.resolved (resolvedBlock body)
  | .ret loc value => .ret loc value.resolved
  | .call loc callee args => .call loc callee (resolvedArguments args)

/-- The block with its types resolved. -/
def Block.resolved : Block → Block
  | .mk loc scope decls statements =>
    .mk loc (Table.resolved scope) (decls.map Decl.resolved) (resolvedStatements statements)

/-- The block, if there is one, with its types resolved. -/
def resolvedBlock : Option Block → Option Block
  | none => none
  | some b => some b.resolved

/-- The statements with their types resolved. -/
def resolvedStatements : List Stmt → List Stmt
  | [] => []
  | s :: ss => s.resolved :: resolvedStatements ss

end

/-- The function with its types resolved. -/
def Function.resolved (f : Function) : Function :=
  { f with
    params := f.params.map Decl.resolved
    type := f.type.map Ty.resolved
    scope := Table.resolved f.scope
    body := resolvedBlock f.body }

/-- The program with its types resolved. -/
def Program.resolved (p : Program) : Program :=
  { p with
    scope := Table.resolved p.scope
    decls := p.decls.map Decl.resolved
    functions := p.functions.map Function.resolved
    body := resolvedBlock p.body }

/-- The types in a scope. -/
def Table.types (t : Option Table) : List Ty := (Table.entriesOf t).map Entry.type

/-- The types in a declaration. -/
def Decl.types (d : Decl) : List Ty :=
  d.vars.flatMap fun v => v.type :: v.constant.toList.map Constant.type

mutual

/-- The types in an expression. -/
def Expr.types : Expr → List Ty
  | .missing => []
  | .constant c => [c.type]
  | .variable _ => []
  | .binary _ _ left right => left.types ++ right.types
  | .unary _ _ operand => operand.types
  | .call _ _ args => argumentTypes args

/-- The types in arguments. -/
def argumentTypes : List Expr → List Ty
  | [] => []
  | e :: es => e.types ++ argumentTypes es

end

mutual

/-- The types in a statement. -/
def Stmt.types : Stmt → List Ty
  | .block b => b.types
  | .print _ target => target.types
  | .read .. => []
  | .assign _ _ value => value.types
  | .branch _ condition yes no => condition.types ++ (blockTypes yes ++ blockTypes no)
  | .loop _ condition body => condition.types ++ blockTypes body
  | .count _ scope _ lower upper body => Table.types scope ++
      (lower.types ++ (upper.types ++ blockTypes body))
  | .ret _ value => value.types
  | .call _ _ args => argumentTypes args

/-- The types in a block. -/
def Block.types : Block → List Ty
  | .mk _ scope decls statements => Table.types scope ++
      (decls.flatMap Decl.types ++ statementTypes statements)

/-- The types in a block, if there is one. -/
def blockTypes : Option Block → List Ty
  | none => []
  | some b => b.types

/-- The types in statements. -/
def statementTypes : List Stmt → List Ty
  | [] => []
  | s :: ss => s.types ++ statementTypes ss

end

/-- The types in a function. -/
def Function.types (f : Function) : List Ty :=
  f.type.toList ++ (Table.types f.scope ++ (f.params.flatMap Decl.types ++ blockTypes f.body))

/-- The types in a program. -/
def Program.types (p : Program) : List Ty :=
  Table.types p.scope ++
    (p.decls.flatMap Decl.types ++ (p.functions.flatMap Function.types ++ blockTypes p.body))

/-- All types are those of their names. -/
def Resolved (ts : List Ty) : Prop := ∀ t ∈ ts, t.resolved = t

instance decidableResolved (ts : List Ty) : Decidable (Resolved ts) :=
  inferInstanceAs (Decidable (∀ t ∈ ts, t.resolved = t))

theorem Resolved.append {ts ts' : List Ty} : Resolved (ts ++ ts') ↔ Resolved ts ∧ Resolved ts' :=
  List.forall_mem_append

theorem Resolved.of_flatMap {α : Type} {types : α → List Ty} {xs : List α}
    (h : Resolved (xs.flatMap types)) :
    ∀ x ∈ xs, Resolved (types x) :=
  fun x hx t ht => h t (List.mem_flatMap.mpr ⟨x, hx, ht⟩)

/-- What changes no item of a list leaves the list as it is. -/
theorem map_eq_self {α : Type} {g : α → α} {xs : List α} (h : ∀ x ∈ xs, g x = x) : xs.map g = xs :=
  (List.map_congr_left h).trans (List.map_id xs)

theorem Table.resolved_eq_self {t : Option Table} (h : Resolved (Table.types t)) :
    Table.resolved t = t := by
  cases t with
  | none => rfl
  | some t =>
    have hentries : t.entries.map Entry.resolved = t.entries := by
      refine map_eq_self fun e he => ?_
      have htype : e.type.resolved = e.type := h e.type (List.mem_map_of_mem he)
      rw [Entry.resolved, htype]
    rw [Table.resolved, Option.map_some, hentries]

theorem Constant.resolved_eq_self {c : Constant} (h : c.type.resolved = c.type) :
    c.resolved = c := by
  rw [Constant.resolved, h]

theorem Decl.resolved_eq_self {d : Decl} (h : Resolved d.types) : d.resolved = d := by
  have hvars : d.vars.map Variable.resolved = d.vars := by
    refine map_eq_self fun v hv => ?_
    obtain ⟨htype, hconstant⟩ := List.forall_mem_cons.mp (Resolved.of_flatMap h v hv)
    have hmap : v.constant.map Constant.resolved = v.constant := by
      cases hc : v.constant with
      | none => rfl
      | some c =>
        have hctype : c.type.resolved = c.type :=
          hconstant c.type (by rw [hc]; exact List.mem_singleton_self _)
        rw [Option.map_some, Constant.resolved_eq_self hctype]
    rw [Variable.resolved, htype, hmap]
  rw [Decl.resolved, hvars]

theorem decls_resolved_eq_self {ds : List Decl} (h : Resolved (ds.flatMap Decl.types)) :
    ds.map Decl.resolved = ds :=
  map_eq_self fun d hd => Decl.resolved_eq_self (h.of_flatMap d hd)

mutual

theorem Expr.resolved_eq_self : ∀ {e : Expr}, Resolved e.types → e.resolved = e
  | .missing, _ => rfl
  | .constant c, h => by
    rw [Expr.resolved, Constant.resolved_eq_self (h c.type (List.mem_singleton_self _))]
  | .variable r, _ => rfl
  | .binary loc op left right, h => by
    obtain ⟨hleft, hright⟩ := Resolved.append.mp h
    rw [Expr.resolved, Expr.resolved_eq_self hleft, Expr.resolved_eq_self hright]
  | .unary loc op operand, h => by
    have hoperand : Resolved operand.types := h
    rw [Expr.resolved, Expr.resolved_eq_self hoperand]
  | .call loc callee args, h => by
    have hargs : Resolved (argumentTypes args) := h
    rw [Expr.resolved, arguments_resolved_eq_self hargs]

theorem arguments_resolved_eq_self :
    ∀ {es : List Expr}, Resolved (argumentTypes es) → resolvedArguments es = es
  | [], _ => rfl
  | e :: es, h => by
    obtain ⟨he, hes⟩ := Resolved.append.mp h
    rw [resolvedArguments, Expr.resolved_eq_self he, arguments_resolved_eq_self hes]

end

mutual

theorem Stmt.resolved_eq_self : ∀ {s : Stmt}, Resolved s.types → s.resolved = s
  | .block b, h => by
    have hb : Resolved b.types := h
    rw [Stmt.resolved, Block.resolved_eq_self hb]
  | .print loc target, h => by
    have htarget : Resolved target.types := h
    rw [Stmt.resolved, Expr.resolved_eq_self htarget]
  | .read loc target, _ => rfl
  | .assign loc target value, h => by
    have hvalue : Resolved value.types := h
    rw [Stmt.resolved, Expr.resolved_eq_self hvalue]
  | .branch loc condition yes no, h => by
    obtain ⟨hcondition, h⟩ := Resolved.append.mp h
    obtain ⟨hyes, hno⟩ := Resolved.append.mp h
    rw [Stmt.resolved, Expr.resolved_eq_self hcondition, block_resolved_eq_self hyes,
      block_resolved_eq_self hno]
  | .loop loc condition body, h => by
    obtain ⟨hcondition, hbody⟩ := Resolved.append.mp h
    rw [Stmt.resolved, Expr.resolved_eq_self hcondition, block_resolved_eq_self hbody]
  | .count loc scope var lower upper body, h => by
    obtain ⟨hscope, h⟩ := Resolved.append.mp h
    obtain ⟨hlower, h⟩ := Resolved.append.mp h
    obtain ⟨hupper, hbody⟩ := Resolved.append.mp h
    rw [Stmt.resolved, Table.resolved_eq_self hscope, Expr.resolved_eq_self hlower,
      Expr.resolved_eq_self hupper, block_resolved_eq_self hbody]
  | .ret loc value, h => by
    have hvalue : Resolved value.types := h
    rw [Stmt.resolved, Expr.resolved_eq_self hvalue]
  | .call loc callee args, h => by
    have hargs : Resolved (argumentTypes args) := h
    rw [Stmt.resolved, arguments_resolved_eq_self hargs]

theorem Block.resolved_eq_self : ∀ {b : Block}, Resolved b.types → b.resolved = b
  | .mk loc scope decls statements, h => by
    obtain ⟨hscope, h⟩ := Resolved.append.mp h
    obtain ⟨hdecls, hstatements⟩ := Resolved.append.mp h
    rw [Block.resolved, Table.resolved_eq_self hscope, decls_resolved_eq_self hdecls,
      statements_resolved_eq_self hstatements]

theorem block_resolved_eq_self : ∀ {b : Option Block}, Resolved (blockTypes b) → resolvedBlock b = b
  | none, _ => rfl
  | some b, h => by
    have hb : Resolved b.types := h
    rw [resolvedBlock, Block.resolved_eq_self hb]

theorem statements_resolved_eq_self :
    ∀ {ss : List Stmt}, Resolved (statementTypes ss) → resolvedStatements ss = ss
  | [], _ => rfl
  | s :: ss, h => by
    obtain ⟨hs, hss⟩ := Resolved.append.mp h
    rw [resolvedStatements, Stmt.resolved_eq_self hs, statements_resolved_eq_self hss]

end

theorem Function.resolved_eq_self {f : Function} (h : Resolved f.types) : f.resolved = f := by
  obtain ⟨htype, h⟩ := Resolved.append.mp h
  obtain ⟨hscope, h⟩ := Resolved.append.mp h
  obtain ⟨hparams, hbody⟩ := Resolved.append.mp h
  have hmap : f.type.map Ty.resolved = f.type := by
    cases ht : f.type with
    | none => rfl
    | some t => rw [Option.map_some, htype t (by rw [ht]; exact List.mem_singleton_self _)]
  rw [Function.resolved, decls_resolved_eq_self hparams, hmap, Table.resolved_eq_self hscope,
    block_resolved_eq_self hbody]

/-- **A program whose types are all those of their names is its own resolved program.** -/
theorem Program.resolved_eq_self {p : Program} (h : Resolved p.types) : p.resolved = p := by
  obtain ⟨hscope, h⟩ := Resolved.append.mp h
  obtain ⟨hdecls, h⟩ := Resolved.append.mp h
  obtain ⟨hfunctions, hbody⟩ := Resolved.append.mp h
  have hmap : p.functions.map Function.resolved = p.functions :=
    map_eq_self fun f hf => Function.resolved_eq_self (hfunctions.of_flatMap f hf)
  rw [Program.resolved, Table.resolved_eq_self hscope, decls_resolved_eq_self hdecls, hmap,
    block_resolved_eq_self hbody]

end RvBackend
