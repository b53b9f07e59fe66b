import RvBackend.Json.Reader
import RvBackend.Text.Utf8
import RvBackend.Tree.Fields

/-! # Programs from JSON

Every node of a tree is an object whose `kind` says which node it is. A node is read from its fields
and from the nodes that its children describe; the first fault in the order of the fields wins, and
a child whose field does not count for its parent's kind is free to be faulty.

* `Fields.node` makes one node.
* `Program.decode` reads a whole program. -/

namespace RvBackend

namespace Child

/-- The child as a node of a wanted kind. -/
def typed {α : Type} (wanted : String) (view : Node → Option α) (c : Child) : Reading α := do
  let node ← c.node
  match view node with
  | some a => return a
  | none => throw (.unexpected node.loc wanted node.kind)

/-- The child as an expression, which has to be there. -/
def expression (c : Option Child) : Reading Expr :=
  match c with
  | none => .error .missingExpression
  | some c => do
    if c.json.isNull then throw .missingExpression
    let node ← c.node
    match node.toExpr? with
    | some e => return e
    | none => throw (.notExpression node.loc node.kind)

/-- The child as the use of a variable, which has to be there. -/
def reference (c : Option Child) : Reading Reference :=
  match c with
  | none => .error .missingReference
  | some c => if c.json.isNull then .error .missingReference
      else c.typed "VariableRef" Node.toReference?

/-- The child as a block, if it is there. -/
def block (c : Option Child) : Reading (Option Block) :=
  match c with
  | none => .ok none
  | some c => if c.json.isNull then .ok none else some <$> c.typed "CompoundStatement" Node.toBlock?

/-- The child as a statement. -/
def statement (c : Child) : Reading Stmt := do
  let node ← c.node
  match node.toStmt? with
  | some s => return s
  | none => throw (.notStatement node.loc node.kind)

/-- The children as declarations. -/
def declarations (cs : List Child) : Reading (List Decl) := cs.mapM (typed "Decl" Node.toDecl?)

end Child

namespace Fields

/-- The type of the node. -/
def readType (f : Fields) : Reading Ty := (Ty.parse f.type).mapError (.type f.loc)

/-- The operator of the node. -/
def readOperator (f : Fields) : Reading Operator :=
  (Operator.parse? f.op).elim (.error (.operator f.loc f.op)) .ok

/-- The table of the node, if it has one. -/
def readScope (f : Fields) : Reading (Option Table) :=
  if f.hasScope then
    (fun es => some ⟨es⟩) <$> (f.scope.entries.mapM EntryFields.entry).mapError (.symbol f.loc)
  else .ok none

/-- The value of a literal: a number of 64 bits, or a truth value as zero or one. -/
def literal? : Json → Option Int
  | .null => some 0
  | .bool b => some (if b then 1 else 0)
  | .number digits => Text.readInt64 digits.toList
  | _ => none

/-- The value of the node as a literal. -/
def readLiteral (f : Fields) : Reading Int :=
  match f.value with
  | none => .error (.constant f.loc "")
  | some c =>
    match literal? c.json with
    | some n => .ok n
    | none => .error (.constant f.loc c.extent.text)

/-- A literal. -/
def constantNode (f : Fields) : Reading Constant := do
  return { loc := f.loc, type := ← f.readType, value := ← f.readLiteral }

/-- A declared variable. -/
def variableNode (f : Fields) : Reading Variable := do
  let type ← f.readType
  let constant ←
    match f.constant with
    | none => pure none
    | some c =>
      if c.json.isNull then pure none else some <$> c.typed "ConstantValue" Node.toConstant?
  return { loc := f.loc, name := f.name, type, constant }

/-- A program. -/
def programNode (f : Fields) : Reading Program := do
  let scope ← f.readScope
  let decls ← Child.declarations f.decls
  let functions ← f.functions.mapM (Child.typed "Function" Node.toFunction?)
  let body ← Child.block f.body
  return { loc := f.loc, name := f.name, file := f.file, scope, decls, functions, body }

/-- A function; an empty type name stands for no type. -/
def functionNode (f : Fields) : Reading Function := do
  let scope ← f.readScope
  let type ← if f.type.isEmpty then pure none else some <$> f.readType
  let params ← Child.declarations f.params
  let body ← Child.block f.body
  return { loc := f.loc, name := f.name, params, type, scope, body }

/-- A block. -/
def blockNode (f : Fields) : Reading Block := do
  let scope ← f.readScope
  let decls ← Child.declarations f.decls
  let statements ← f.statements.mapM Child.statement
  return .mk f.loc scope decls statements

/-- A `for` loop. -/
def countNode (f : Fields) : Reading Stmt := do
  let scope ← f.readScope
  let lower ← Child.expression f.lower
  let upper ← Child.expression f.upper
  let body ← Child.block f.body
  return .count f.loc scope f.var lower upper body

/-- The operator of a unary expression; a minus sign is the operator `neg`. -/
def readUnary (f : Fields) : Reading Operator := do
  let op ← f.readOperator
  return if op = .minus then .neg else op

/-- The node that the fields describe. -/
def node (f : Fields) : Reading Node :=
  match f.kind with
  | "Program" => return .program (← f.programNode)
  | "Decl" =>
    return .decl { loc := f.loc, vars := ← f.vars.mapM (Child.typed "Variable" Node.toVariable?) }
  | "Variable" => return .variable (← f.variableNode)
  | "ConstantValue" => return .expr (.constant (← f.constantNode))
  | "Function" => return .function (← f.functionNode)
  | "CompoundStatement" => return .stmt (.block (← f.blockNode))
  | "Print" => return .stmt (.print f.loc (← Child.expression f.target))
  | "Read" => return .stmt (.read f.loc (← Child.reference f.target))
  | "Assignment" =>
    return .stmt (.assign f.loc (← Child.reference f.target) (← Child.expression f.value))
  | "BinaryOp" =>
    return .expr (.binary f.loc (← f.readOperator) (← Child.expression f.left)
      (← Child.expression f.right))
  | "UnaryOp" => return .expr (.unary f.loc (← f.readUnary) (← Child.expression f.operand))
  | "Invocation" =>
    return .call f.loc f.name (← f.args.mapM fun c => Child.expression (some c))
  | "VariableRef" => return .expr (.variable { loc := f.loc, name := f.name })
  | "If" =>
    return .stmt (.branch f.loc (← Child.expression f.condition) (← Child.block f.yes)
      (← Child.block f.no))
  | "While" =>
    return .stmt (.loop f.loc (← Child.expression f.condition) (← Child.block f.body))
  | "For" => return .stmt (← f.countNode)
  | "Return" => return .stmt (.ret f.loc (← Child.expression f.value))
  | "" => throw (.noKind f.loc)
  | kind => throw (.unknownKind f.loc kind)

end Fields

mutual

/-- The node that a value describes; `null` is like an object without members. -/
def Node.ofJson : Json → Reading Node
  | .object members => (Fields.ofMembers {} members).bind Fields.node
  | .null => Fields.node {}
  | _ => .error .malformed

/-- The fields after some more members. -/
def Fields.ofMembers (f : Fields) : List (String × Extent × Json) → Reading Fields
  | [] => .ok f
  | (name, extent, v) :: members => do
    let child : Child := { json := v, extent, node := Node.ofJson v }
    let f ← f.set (Text.fold name) child (Child.itemsOf v)
    Fields.ofMembers { f with hasScope := f.hasScope || name == "scope" } members

/-- The items of an array as children. -/
def Child.itemsOf : Json → List Child
  | .array items => Child.ofItems items
  | _ => []

/-- Values as children. -/
def Child.ofItems : List Json → List Child
  | [] => []
  | v :: vs => { json := v, node := Node.ofJson v } :: Child.ofItems vs

end

/-- The program that a text in JSON describes. -/
def Program.ofText (text : List Char) : Except DecodeError Program := do
  match Json.parse text with
  | none => throw .malformed
  | some v =>
    match ← Node.ofJson v with
    | .program p => return p
    | node => throw (.notProgram node.kind)

/-- The program that the bytes of a text in JSON describe. -/
def Program.decode (bytes : List UInt8) : Except DecodeError Program :=
  Program.ofText (Text.charsOfBytes bytes)

end RvBackend
