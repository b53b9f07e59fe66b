import RvBackend.Tree.Basic

/-! # Nodes of a tree

`Node` is any part of a tree that the front end hands over as one object, and `DecodeError` says why
an object is no such part. An invocation is an expression and a statement at once. -/

namespace RvBackend

/-- A part of a tree. -/
inductive Node where
  | program (p : Program)
  | decl (d : Decl)
  | variable (v : Variable)
  | function (f : Function)
  | expr (e : Expr)
  | stmt (s : Stmt)
  | call (loc : Location) (callee : String) (args : List Expr)

/-- The name of an expression's kind. -/
def Expr.kind : Expr → String
  | .missing => "Missing"
  | .constant _ => "ConstantValue"
  | .variable _ => "VariableRef"
  | .binary .. => "BinaryOp"
  | .unary .. => "UnaryOp"
  | .call .. => "Invocation"

/-- The name of a statement's kind. -/
def Stmt.kind : Stmt → String
  | .block _ => "CompoundStatement"
  | .print .. => "Print"
  | .read .. => "Read"
  | .assign .. => "Assignment"
  | .branch .. => "If"
  | .loop .. => "While"
  | .count .. => "For"
  | .ret .. => "Return"
  | .call .. => "Invocation"

namespace Node

/-- The name of a node's kind. -/
def kind : Node → String
  | .program _ => "Program"
  | .decl _ => "Decl"
  | .variable _ => "Variable"
  | .function _ => "Function"
  | .expr e => e.kind
  | .stmt s => s.kind
  | .call .. => "Invocation"

/-- Where a node stands. -/
def loc : Node → Location
  | .program p => p.loc
  | .decl d => d.loc
  | .variable v => v.loc
  | .function f => f.loc
  | .expr e => e.loc
  | .stmt s => s.loc
  | .call loc .. => loc

/-- The node as an expression. -/
def toExpr? : Node → Option Expr
  | .expr e => some e
  | .call loc callee args => some (.call loc callee args)
  | _ => none

/-- The node as a statement. -/
def toStmt? : Node → Option Stmt
  | .stmt s => some s
  | .call loc callee args => some (.call loc callee args)
  | _ => none

/-- The node as a block. -/
def toBlock? : Node → Option Block
  | .stmt (.block b) => some b
  | _ => none

/-- The node as a declaration. -/
def toDecl? : Node → Option Decl
  | .decl d => some d
  | _ => none

/-- The node as a variable. -/
def toVariable? : Node → Option Variable
  | .variable v => some v
  | _ => none

/-- The node as a function. -/
def toFunction? : Node → Option Function
  | .function f => some f
  | _ => none

/-- The node as a literal. -/
def toConstant? : Node → Option Constant
  | .expr (.constant c) => some c
  | _ => none

/-- The node as the use of a variable. -/
def toReference? : Node → Option Reference
  | .expr (.variable r) => some r
  | _ => none

end Node

/-- Why an object describes no declared name. -/
inductive SymbolError where
  | type (name : String) (e : TypeError)
  | noValue (name : String)
  | unknownKind (name kind : String)
deriving DecidableEq, Repr

/-- The wording of a symbol error. -/
def SymbolError.message : SymbolError → String
  | .type name e => "symbol " ++ name ++ ": " ++ e.message
  | .noValue name => "constant " ++ name ++ " has no value"
  | .unknownKind name kind => "symbol " ++ name ++ ": unknown kind " ++ Text.quote kind

/-- Why a text describes no program. -/
inductive DecodeError where
  /-- Not JSON, or a field has a value of a wrong type. -/
  | malformed
  | notProgram (got : String)
  | unexpected (loc : Location) (wanted got : String)
  | notStatement (loc : Location) (got : String)
  | notExpression (loc : Location) (got : String)
  | missingExpression
  | missingReference
  | noKind (loc : Location)
  | unknownKind (loc : Location) (kind : String)
  | type (loc : Location) (e : TypeError)
  | operator (loc : Location) (name : String)
  | symbol (loc : Location) (e : SymbolError)
  | constant (loc : Location) (text : String)
deriving DecidableEq, Repr

namespace DecodeError

/-- A node kind as it is named in messages. -/
def kindName (kind : String) : String := "*ast." ++ kind

/-- The wording of a decode error. -/
def message : DecodeError → String
  | .malformed => "decoding node: ..."
  | .notProgram got => "expected a Program at the root, got " ++ kindName got
  | .unexpected loc wanted got =>
    loc.text ++ ": expected " ++ kindName wanted ++ ", got " ++ kindName got
  | .notStatement loc got => loc.text ++ ": " ++ kindName got ++ " is not a statement"
  | .notExpression loc got => loc.text ++ ": " ++ kindName got ++ " is not an expression"
  | .missingExpression => "missing expression"
  | .missingReference => "missing variable reference"
  | .noKind loc => loc.text ++ ": node without a kind"
  | .unknownKind loc kind => loc.text ++ ": unknown node kind " ++ Text.quote kind
  | .type loc e => loc.text ++ ": " ++ e.message
  | .operator loc name => loc.text ++ ": " ++ Operator.unknownMessage name
  | .symbol loc e => loc.text ++ ": " ++ e.message
  | .constant loc text => loc.text ++ ": invalid constant value " ++ text

end DecodeError

end RvBackend
