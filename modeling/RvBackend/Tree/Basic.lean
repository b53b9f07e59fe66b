import RvBackend.Scope.Table
import RvBackend.Tree.Location
import RvBackend.Tree.Operator

/-! # Annotated syntax trees

The trees that code is made from. The front end has resolved every type and every declaration:
a program, a function, a block and a `for` loop carry the table of the names they declare. -/

namespace RvBackend

/-- A literal of a scalar type; a boolean is zero or one. -/
structure Constant where
  loc : Location := {}
  type : Ty
  value : Int
deriving DecidableEq, Repr

/-- A variable where it is used. -/
structure Reference where
  loc : Location := {}
  name : String
deriving DecidableEq, Repr

/-- An expression. The front end may have left one out (`missing`). -/
inductive Expr where
  | missing
  | constant (c : Constant)
  | variable (r : Reference)
  | binary (loc : Location) (op : Operator) (left right : Expr)
  | unary (loc : Location) (op : Operator) (operand : Expr)
  | call (loc : Location) (callee : String) (args : List Expr)

/-- One declared variable, with its value if it is a constant. -/
structure Variable where
  loc : Location := {}
  name : String
  type : Ty
  constant : Option Constant := none
deriving DecidableEq, Repr

/-- A declaration of some variables. -/
structure Decl where
  loc : Location := {}
  vars : List Variable := []
deriving DecidableEq, Repr

mutual

/-- A statement. -/
inductive Stmt where
  | block (b : Block)
  | print (loc : Location) (target : Expr)
  | read (loc : Location) (target : Reference)
  | assign (loc : Location) (target : Reference) (value : Expr)
  | branch (loc : Location) (condition : Expr) (yes no : Option Block)
  | loop (loc : Location) (condition : Expr) (body : Option Block)
  /-- A `for` loop over the integers from `lower` up to, but without, `upper`. -/
  | count (loc : Location) (scope : Option Table) (var : String) (lower upper : Expr)
    (body : Option Block)
  | ret (loc : Location) (value : Expr)
  | call (loc : Location) (callee : String) (args : List Expr)

/-- A block of statements with the names it declares. -/
inductive Block where
  | mk (loc : Location) (scope : Option Table) (decls : List Decl) (statements : List Stmt)

end

namespace Block

/-- Where a block begins. -/
def loc : Block → Location
  | .mk loc .. => loc

/-- The table of a block. -/
def scope : Block → Option Table
  | .mk _ scope .. => scope

/-- The declarations of a block. -/
def decls : Block → List Decl
  | .mk _ _ decls _ => decls

/-- The statements of a block. -/
def statements : Block → List Stmt
  | .mk _ _ _ statements => statements

end Block

/-- Where an expression stands. -/
def Expr.loc : Expr → Location
  | .missing => {}
  | .constant c => c.loc
  | .variable r => r.loc
  | .binary loc .. => loc
  | .unary loc .. => loc
  | .call loc .. => loc

/-- Where a statement stands. -/
def Stmt.loc : Stmt → Location
  | .block b => b.loc
  | .print loc _ => loc
  | .read loc _ => loc
  | .assign loc .. => loc
  | .branch loc .. => loc
  | .loop loc .. => loc
  | .count loc .. => loc
  | .ret loc _ => loc
  | .call loc .. => loc

/-- A function. Without a type it returns nothing. -/
structure Function where
  loc : Location := {}
  name : String
  params : List Decl := []
  type : Option Ty := none
  scope : Option Table := none
  body : Option Block := none

/-- A program; its table holds the global names. -/
structure Program where
  loc : Location := {}
  name : String
  file : String := ""
  scope : Option Table := none
  decls : List Decl := []
  functions : List Function := []
  body : Option Block := none

end RvBackend
