import RvBackend.Lower.Expression
import RvBackend.Lower.Frame

/-! # Code for statements

The code of a statement leaves the stack as it was. A `for` loop counts in the slot of its variable;
its bounds are literals, and its code tests for equality with the upper one.

* `statement` is the code of a statement, `block` that of a block. -/

namespace RvBackend.Lower

open Asm

/-- The label behind the body of the function. -/
def Context.exitLabel (ctx : Context) : String := ".L" ++ ctx.function ++ "_exit"

/-- The code of an output. -/
def printCode (ctx : Context) (scopes : Scopes) (target : Expr) : Except Fault (List Line) := do
  let code ← expression ctx.abi scopes target
  return [.remark "print"] ++ code ++ pop a0 ++ [.op "jal" [ra, .label ctx.abi.printHelper]]

/-- The code of an input. -/
def readCode (ctx : Context) (scopes : Scopes) (target : Reference) :
    Except Fault (List Line) := do
  let e ← resolve scopes target.loc target.name
  return [.remark ("read " ++ target.name)] ++ loadAddress t0 e ++ push t0 ++
    [.op "jal" [ra, .label ctx.abi.readHelper]] ++ pop t0 ++ [.op "sw" [a0, .mem 0 "t0"]]

/-- The code of an assignment. -/
def assignCode (ctx : Context) (scopes : Scopes) (target : Reference) (value : Expr) :
    Except Fault (List Line) := do
  let e ← resolve scopes target.loc target.name
  let code ← expression ctx.abi scopes value
  return [.remark ("assign " ++ target.name)] ++ loadAddress t0 e ++ push t0 ++ code ++ pop t1 ++
    pop t0 ++ [.op "sw" [t1, .mem 0 "t0"]]

/-- The code that leaves the function with a result. -/
def returnCode (ctx : Context) (scopes : Scopes) (value : Expr) : Except Fault (List Line) := do
  let code ← expression ctx.abi scopes value
  return [.remark "return"] ++ code ++ pop a0 ++ [.op "j" [.label ctx.exitLabel]]

/-- The code of a condition; it goes to a label if the condition fails. -/
def testCode (ctx : Context) (scopes : Scopes) (condition : Expr) (otherwise : String) :
    Except Fault (List Line) := do
  let code ← expression ctx.abi scopes condition
  return code ++ pop t0 ++ [.op "beqz" [t0, .label otherwise]]

/-- The value of a bound of a `for` loop. -/
def boundValue (bound : Bound) : Expr → Except Fault Int64
  | .constant c =>
    if c.type = Ty.integer then immediate c.loc c.value
    else .error (.unsupported c.loc (.boundType bound c.type))
  | e => .error (.unsupported e.loc (.boundShape bound))

/-- The bounds of a `for` loop. -/
def boundValues (loc : Location) (lower upper : Expr) : Except Fault (Int64 × Int64) := do
  let lo ← boundValue .lower lower
  let hi ← boundValue .upper upper
  if lo ≤ hi then return (lo, hi)
  else throw (.unsupported loc (.boundOrder lo.toInt hi.toInt))

/-- The code of a `for` loop around the code of its body. -/
def countCode (e : Entry) (var : String) (lo hi : Int64) (again done : String) (body : List Line) :
    List Line :=
  [.remark ("for " ++ var ++ " in [" ++ Text.decimal lo.toInt ++ ", " ++ Text.decimal hi.toInt ++
    ")")] ++
  loadAddress t0 e ++ [.op "li" [t1, .imm lo], .op "sw" [t1, .mem 0 "t0"], .label again] ++
  loadAddress t0 e ++
  [.op "lw" [t0, .mem 0 "t0"], .op "li" [t1, .imm hi], .op "beq" [t0, t1, .label done]] ++
  body ++ loadAddress t0 e ++
  [.op "lw" [t1, .mem 0 "t0"], .op "addi" [t1, t1, .imm 1], .op "sw" [t1, .mem 0 "t0"],
    .op "j" [.label again], .label done]

mutual

/-- The code of a statement. -/
def statement (ctx : Context) (scopes : Scopes) : Stmt → Lowering (List Line)
  | .block b => block ctx scopes b
  | .print _ target => printCode ctx scopes target
  | .read _ target => readCode ctx scopes target
  | .assign _ target value => assignCode ctx scopes target value
  | .branch _ condition yes no => do
    let otherwise ← newLabel
    let done ← newLabel
    let test ← testCode ctx scopes condition otherwise
    let yes ← optionalBlock ctx scopes yes
    let no ← optionalBlock ctx scopes no
    return test ++ yes ++ [.op "j" [.label done], .label otherwise] ++ no ++ [.label done]
  | .loop _ condition body => do
    let again ← newLabel
    let done ← newLabel
    let test ← testCode ctx scopes condition done
    let body ← optionalBlock ctx scopes body
    return [.label again] ++ test ++ body ++ [.op "j" [.label again], .label done]
  | .count loc scope var lower upper body => do
    let (lo, hi) ← boundValues loc lower upper
    let (scope, fill) ← install ctx loc scope
    let scopes := scopes.enter scope
    let e ← resolve scopes loc var
    let again ← newLabel
    let done ← newLabel
    let body ← optionalBlock ctx scopes body
    return fill ++ countCode e var lo hi again done body
  | .ret _ value => returnCode ctx scopes value
  | .call loc callee args => do
    let code ← call ctx.abi scopes loc callee args
    return code ++ discard

/-- The code of a block. -/
def block (ctx : Context) (scopes : Scopes) : Block → Lowering (List Line)
  | .mk loc scope _ body => do
    let (scope, fill) ← install ctx loc scope
    let code ← statements ctx (scopes.enter scope) body
    return fill ++ code

/-- The code of a block that may be missing. -/
def optionalBlock (ctx : Context) (scopes : Scopes) : Option Block → Lowering (List Line)
  | none => return []
  | some b => block ctx scopes b

/-- The code of statements one after the other. -/
def statements (ctx : Context) (scopes : Scopes) : List Stmt → Lowering (List Line)
  | [] => return []
  | s :: ss => do
    let code ← statement ctx scopes s
    let rest ← statements ctx scopes ss
    return code ++ rest

end

end RvBackend.Lower
