import RvBackend.Tree.Basic

/-! # Trees as nested lists

`Program.sexpr` prints a tree as nested lists in parentheses. A tree from which a needed part is
missing (an expression, the branch of a conditional, the body of a loop) has no printed form. -/

namespace RvBackend

/-- Words in parentheses with a blank between them. -/
def parenthesize (words : List String) : String := "(" ++ " ".intercalate words ++ ")"

/-- A literal: booleans by name, all others as numbers. -/
def Constant.sexpr (c : Constant) : String :=
  if c.type = Ty.boolean then (if c.value = 0 then "false" else "true") else Text.decimal c.value

/-- A variable with its type, and its value if it is a constant. -/
def Variable.sexpr (v : Variable) : String :=
  parenthesize ([v.name, v.type.text] ++ (v.constant.map Constant.sexpr).toList)

/-- A declaration with its variables. -/
def Decl.sexpr (d : Decl) : String := parenthesize ("decl" :: d.vars.map Variable.sexpr)

mutual

/-- An expression, operator or callee first. -/
def Expr.sexpr? : Expr → Option String
  | .missing => none
  | .constant c => some c.sexpr
  | .variable r => some r.name
  | .binary _ op left right => do
    return parenthesize [op.text, ← left.sexpr?, ← right.sexpr?]
  | .unary _ op operand => do return parenthesize [op.text, ← operand.sexpr?]
  | .call _ callee args => do return parenthesize (callee :: (← sexprs? args))

/-- Expressions one by one. -/
def sexprs? : List Expr → Option (List String)
  | [] => some []
  | e :: es => do return (← e.sexpr?) :: (← sexprs? es)

end

mutual

/-- A statement, its keyword first. -/
def Stmt.sexpr? : Stmt → Option String
  | .block b => b.sexpr?
  | .print _ target => do return parenthesize ["print", ← target.sexpr?]
  | .read _ target => some (parenthesize ["read", target.name])
  | .assign _ target value => do return parenthesize [":=", target.name, ← value.sexpr?]
  | .branch _ condition yes no => do
    let test ← condition.sexpr?
    let yes ← branchSexpr? yes
    match no with
    | none => return parenthesize ["if", test, yes]
    | some b => return parenthesize ["if", test, yes, ← b.sexpr?]
  | .loop _ condition body => do
    return parenthesize ["while", ← condition.sexpr?, ← branchSexpr? body]
  | .count _ _ var lower upper body => do
    return parenthesize ["for", var, ← lower.sexpr?, ← upper.sexpr?, ← branchSexpr? body]
  | .ret _ value => do return parenthesize ["return", ← value.sexpr?]
  | .call _ callee args => do return parenthesize (callee :: (← sexprs? args))

/-- A block: its declarations, then its statements. -/
def Block.sexpr? : Block → Option String
  | .mk _ _ decls statements => do
    return parenthesize ("block" :: decls.map Decl.sexpr ++ (← statementSexprs? statements))

/-- A block that has to be there. -/
def branchSexpr? : Option Block → Option String
  | none => none
  | some b => b.sexpr?

/-- Statements one by one. -/
def statementSexprs? : List Stmt → Option (List String)
  | [] => some []
  | s :: ss => do return (← s.sexpr?) :: (← statementSexprs? ss)

end

/-- A function with its parameters in parentheses and its type. A function without a body ends with
a blank. -/
def Function.sexpr? (f : Function) : Option String := do
  let body ←
    match f.body with
    | none => pure ""
    | some b => b.sexpr?
  let type := (f.type.map Ty.text).getD "void"
  return parenthesize ["func", f.name, parenthesize (f.params.map Decl.sexpr), type, body]

/-- A program: its name, declarations, functions and body. -/
def Program.sexpr? (p : Program) : Option String := do
  let functions ← p.functions.mapM Function.sexpr?
  let body ←
    match p.body with
    | none => pure []
    | some b => (fun s => [s]) <$> b.sexpr?
  return parenthesize (["program", p.name] ++ p.decls.map Decl.sexpr ++ functions ++ body)

end RvBackend
