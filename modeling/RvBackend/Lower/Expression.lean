import RvBackend.Lower.Stack
import RvBackend.Settings.Abi

/-! # Code for expressions

The code of an expression leaves its value on the stack and takes off all else that it has put
there.

* `expression` is the code of an expression.
* `operation` combines `t0` and `t1` in `t0`; a comparison looks at their difference. -/

namespace RvBackend.Lower

open Asm

/-- Turns the difference in `t0` into the truth value of a comparison with zero. -/
def comparison : Operator → List Line
  | .equal => [.op "seqz" [t0, t0]]
  | .notEqual => [.op "snez" [t0, t0]]
  | .less => [.op "sltz" [t0, t0]]
  | .greater => [.op "sgtz" [t0, t0]]
  | .lessOrEqual => [.op "sgtz" [t0, t0], .op "xori" [t0, t0, .imm 1]]
  | .greaterOrEqual => [.op "sltz" [t0, t0], .op "xori" [t0, t0, .imm 1]]
  | _ => []

/-- Combines the operands in `t0` and `t1` in `t0`. -/
def operation (loc : Location) : Operator → Except Fault (List Line)
  | .plus => .ok [.op "add" [t0, t0, t1]]
  | .minus => .ok [.op "sub" [t0, t0, t1]]
  | .times => .ok [.op "mul" [t0, t0, t1]]
  | .divide => .ok [.op "div" [t0, t0, t1]]
  | .mod => .ok [.op "rem" [t0, t0, t1]]
  | .and => .ok [.op "snez" [t0, t0], .op "snez" [t1, t1], .op "and" [t0, t0, t1]]
  | .or => .ok [.op "or" [t0, t0, t1], .op "snez" [t0, t0]]
  | op =>
    if op.isRelational then .ok (.op "sub" [t0, t0, t1] :: comparison op)
    else .error (.unsupported loc (.binaryOperator op))

/-- Changes the operand in `t0`. -/
def unaryOperation (loc : Location) : Operator → Except Fault (List Line)
  | .neg | .minus => .ok [.op "neg" [t0, t0]]
  | .not => .ok [.op "seqz" [t0, t0]]
  | op => .error (.unsupported loc (.unaryOperator op))

/-- The code of a literal. -/
def literal (c : Constant) : Except Fault (List Line) := do
  unless c.type.isScalar do throw (.unsupported c.loc (.literalType c.type))
  let value ← immediate c.loc c.value
  return .op "li" [t0, .imm value] :: push t0

/-- The code of a variable. -/
def load (scopes : Scopes) (r : Reference) : Except Fault (List Line) := do
  let e ← resolve scopes r.loc r.name
  return [.remark ("load " ++ r.name)] ++ loadAddress t0 e ++ [.op "lw" [t0, .mem 0 "t0"]] ++
    push t0

/-- Refuses a call with more arguments than there are registers. -/
def checkArguments (abi : Abi) (loc : Location) (callee : String) (count : Nat) :
    Except Fault Unit :=
  if count ≤ abi.maxArgs then .ok ()
  else .error (.unsupported loc (.arguments callee count abi.maxArgs))

/-- Takes the arguments off the stack into their registers, the last one first, calls, and puts the
result on the stack. -/
def transfer (abi : Abi) (callee : String) (count : Nat) : List Line :=
  (abi.registers.take count).reverse.flatMap (fun r => pop (.reg r)) ++
    [.op "jal" [ra, .label callee]] ++ push a0

mutual

/-- The code of an expression. -/
def expression (abi : Abi) (scopes : Scopes) : Expr → Except Fault (List Line)
  | .missing => .error (.unsupported {} .missingExpression)
  | .constant c => literal c
  | .variable r => load scopes r
  | .binary loc op left right => do
    let left ← expression abi scopes left
    let right ← expression abi scopes right
    let code ← operation loc op
    return left ++ right ++ pop t1 ++ pop t0 ++ code ++ push t0
  | .unary loc op operand => do
    let operand ← expression abi scopes operand
    let code ← unaryOperation loc op
    return operand ++ pop t0 ++ code ++ push t0
  | .call loc callee args => do
    checkArguments abi loc callee args.length
    let code ← arguments abi scopes callee 0 args
    return code ++ transfer abi callee args.length

/-- The code of arguments, the first of which has the number `i`. -/
def arguments (abi : Abi) (scopes : Scopes) (callee : String) (i : Nat) :
    List Expr → Except Fault (List Line)
  | [] => .ok []
  | e :: es => do
    let code ← expression abi scopes e
    let rest ← arguments abi scopes callee (i + 1) es
    return [.remark ("argument " ++ Text.decimal i ++ " of " ++ callee)] ++ code ++ rest

end

/-- The code of a call; it leaves the result on the stack. -/
def call (abi : Abi) (scopes : Scopes) (loc : Location) (callee : String) (args : List Expr) :
    Except Fault (List Line) :=
  expression abi scopes (.call loc callee args)

end RvBackend.Lower
