import RvBackend.Lower.Program
import RvBackend.Proofs.Outcome
import RvBackend.Proofs.Scope.Restored

/-! # Generation along a chain of scopes

Generation hands the visible tables down as it goes into a tree. Here it is written out with one
chain of open scopes instead, which is a part of the state: each node opens its scope, works under
it, and closes it again whichever way it is left. Steps of this kind can come to an end that is
neither code nor a fault: the wrong scope may be open when one is closed, a constant may have no
value, an argument no register.

* `inScope` opens a scope for some steps, and closes it behind them also if they stop.
* `walkExpression`, `walkStatement`, `walkFunction` and `walkProgram` make code along a chain. -/

namespace RvBackend.Lower

open Asm

/-! ### Steps along a chain -/

/-- What generation has used up, and the chain of the open scopes. -/
structure Walk where
  progress : Progress
  chain : Chain

/-- An end that is neither code nor a fault. -/
inductive Crash where
  /-- A scope is closed that is not the innermost one. -/
  | chain (e : ChainError)
  /-- A constant has no value. -/
  | value (name : String)
  /-- An argument has no register. -/
  | register (i : ℕ)

/-- Why steps along a chain stop. -/
inductive Stop (ε : Type) where
  | fault (e : ε)
  | crash (c : Crash)

/-- Steps of generation along a chain. -/
abbrev Walking (ε : Type) := ExceptT (Stop ε) (StateM Walk)

/-- A fault stops the steps; that a constant has no value is not told, but a crash. -/
def Fault.stop : Fault → Stop Fault
  | .valueless name => .crash (.value name)
  | f => .fault f

section

variable {ε α β : Type}

/-- Steps that do not look at the chain. -/
def aside (stop : ε → Stop ε) (x : ExceptT ε (StateM Progress) α) : Walking ε α :=
  ExceptT.mk fun w =>
    ((outcome x w.progress).1.mapError stop, { w with progress := (outcome x w.progress).2 })

/-- Closes a scope behind what some steps have come to. -/
def leave (i : ℕ) (r : Except (Stop ε) α × Walk) : Except (Stop ε) α × Walk :=
  match r.2.chain.exit i with
  | .error e => (.error (.crash (.chain e)), r.2)
  | .ok chain => (r.1, { r.2 with chain })

/-- Opens a scope for some steps, which get to know its index, and closes it behind them, also if
they stop. -/
def inScope (t : Option Table) (body : ℕ → Walking ε α) : Walking ε α :=
  ExceptT.mk fun w =>
    match (w.chain.place t).enter w.chain.tables.length with
    | .error e => (.error (.crash (.chain e)), w)
    | .ok chain =>
      leave w.chain.tables.length (outcome (body w.chain.tables.length) { w with chain })

end

/-- What the visible tables make of something. -/
def look {α : Type} (f : Scopes → Except Fault α) : Walking Fault α := do
  let w ← get
  aside Fault.stop (f w.chain.scopes)

/-- The register of an argument. -/
def argumentRegister (abi : Abi) (i : ℕ) : Walking Fault String :=
  match abi.argRegister? i with
  | none => throw (.crash (.register i))
  | some r => return r

/-- The code that takes the first `i` arguments off the stack, the last one first. -/
def walkTransfer (abi : Abi) : ℕ → Walking Fault (List Line)
  | 0 => return []
  | i + 1 => do
    let r ← argumentRegister abi i
    let rest ← walkTransfer abi i
    return pop (.reg r) ++ rest

mutual

/-- The code of an expression, along a chain. -/
def walkExpression (abi : Abi) : Expr → Walking Fault (List Line)
  | .missing => throw (.fault (.unsupported {} .missingExpression))
  | .constant c => aside Fault.stop (literal c)
  | .variable r => look (load · r)
  | .binary loc op left right => do
    let left ← walkExpression abi left
    let right ← walkExpression abi right
    let code ← aside Fault.stop (operation loc op)
    return left ++ right ++ pop t1 ++ pop t0 ++ code ++ push t0
  | .unary loc op operand => do
    let operand ← walkExpression abi operand
    let code ← aside Fault.stop (unaryOperation loc op)
    return operand ++ pop t0 ++ code ++ push t0
  | .call loc callee args => do
    aside Fault.stop (checkArguments abi loc callee args.length)
    let code ← walkArguments abi callee 0 args
    let pops ← walkTransfer abi args.length
    return code ++ (pops ++ [.op "jal" [ra, .label callee]] ++ push a0)

/-- The code of arguments, along a chain. -/
def walkArguments (abi : Abi) (callee : String) (i : ℕ) : List Expr → Walking Fault (List Line)
  | [] => return []
  | e :: es => do
    let code ← walkExpression abi e
    let rest ← walkArguments abi callee (i + 1) es
    return [.remark ("argument " ++ Text.decimal i ++ " of " ++ callee)] ++ code ++ rest

end

/-- The code that fills the slot of an entry. -/
def walkFill (abi : Abi) (loc : Location) (params : ℕ) (e : Entry) : Walking Fault (List Line) :=
  match e.kind with
  | .constant =>
    match e.value with
    | none => throw (.crash (.value e.name))
    | some v => do
      let value ← aside Fault.stop (immediate loc v)
      return [.remark ("local constant " ++ e.name), .op "li" [t0, .imm value],
        .op "sw" [t0, .mem e.slot "s0"]]
  | .parameter =>
    if abi.maxArgs ≤ params then throw (.fault (.unsupported loc (.parameter e.name abi.maxArgs)))
    else do
      let r ← argumentRegister abi params
      return [.remark ("parameter " ++ e.name), .op "sw" [.reg r, .mem e.slot "s0"]]
  | _ => return []

/-- The entries with their slots, and the code that fills the slots. -/
def walkEntries (abi : Abi) (loc : Location) (params : ℕ) :
    List Entry → Walking Fault (List Entry × List Line)
  | [] => return ([], [])
  | e :: es => do
    unless e.type.isScalar do throw (.fault (.unsupported loc (.localType e.kind e.name e.type)))
    let e := { e with slot := ← aside Fault.stop (newSlot abi) }
    let code ← walkFill abi loc params e
    let (es, rest) ← walkEntries abi loc (if e.kind = .parameter then params + 1 else params) es
    return (e :: es, code ++ rest)

/-- The table of a scope with the slots of its entries, and the code that fills the slots. -/
def walkTable (ctx : Context) (loc : Location) :
    Option Table → Walking Fault (Option Table × List Line)
  | none => return (none, [])
  | some t => do
    let (entries, code) ← walkEntries ctx.abi loc 0 t.entries
    unless entries.isEmpty do
      aside Fault.stop do
        note "installed frame" [("function", ctx.function),
          ("entries", Text.decimal entries.length), ("cursor", Text.decimal (← get).cursor.toInt)]
    return (some ⟨entries⟩, code)

/-- Gives the entries of the scope at an index, which is open, their slots. -/
def walkInstall (ctx : Context) (loc : Location) (i : ℕ) (t : Option Table) :
    Walking Fault (List Line) := do
  let (t, code) ← walkTable ctx loc t
  modify fun w => { w with chain := w.chain.put i t }
  return code

/-- The code of a condition, along a chain. -/
def walkTest (ctx : Context) (condition : Expr) (otherwise : String) :
    Walking Fault (List Line) := do
  let code ← walkExpression ctx.abi condition
  return code ++ pop t0 ++ [.op "beqz" [t0, .label otherwise]]

mutual

/-- The code of a statement, along a chain. -/
def walkStatement (ctx : Context) : Stmt → Walking Fault (List Line)
  | .block b => walkBlock ctx b
  | .print _ target => do
    let code ← walkExpression ctx.abi target
    return [.remark "print"] ++ code ++ pop a0 ++ [.op "jal" [ra, .label ctx.abi.printHelper]]
  | .read _ target => look (readCode ctx · target)
  | .assign _ target value => do
    let e ← look (resolve · target.loc target.name)
    let code ← walkExpression ctx.abi value
    return [.remark ("assign " ++ target.name)] ++ loadAddress t0 e ++ push t0 ++ code ++ pop t1 ++
      pop t0 ++ [.op "sw" [t1, .mem 0 "t0"]]
  | .branch _ condition yes no => do
    let otherwise ← aside Fault.stop newLabel
    let done ← aside Fault.stop newLabel
    let test ← walkTest ctx condition otherwise
    let yes ← walkOptionalBlock ctx yes
    let no ← walkOptionalBlock ctx no
    return test ++ yes ++ [.op "j" [.label done], .label otherwise] ++ no ++ [.label done]
  | .loop _ condition body => do
    let again ← aside Fault.stop newLabel
    let done ← aside Fault.stop newLabel
    let test ← walkTest ctx condition done
    let body ← walkOptionalBlock ctx body
    return [.label again] ++ test ++ body ++ [.op "j" [.label again], .label done]
  | .count loc scope var lower upper body => do
    let (lo, hi) ← aside Fault.stop (boundValues loc lower upper)
    inScope scope fun i => do
      let fill ← walkInstall ctx loc i scope
      let e ← look (resolve · loc var)
      let again ← aside Fault.stop newLabel
      let done ← aside Fault.stop newLabel
      let body ← walkOptionalBlock ctx body
      return fill ++ countCode e var lo hi again done body
  | .ret _ value => do
    let code ← walkExpression ctx.abi value
    return [.remark "return"] ++ code ++ pop a0 ++ [.op "j" [.label ctx.exitLabel]]
  | .call loc callee args => do
    let code ← walkExpression ctx.abi (.call loc callee args)
    return code ++ discard

/-- The code of a block, along a chain. -/
def walkBlock (ctx : Context) : Block → Walking Fault (List Line)
  | .mk loc scope _ body =>
    inScope scope fun i => do
      let fill ← walkInstall ctx loc i scope
      let code ← walkStatements ctx body
      return fill ++ code

/-- The code of a block that may be missing, along a chain. -/
def walkOptionalBlock (ctx : Context) : Option Block → Walking Fault (List Line)
  | none => return []
  | some b => walkBlock ctx b

/-- The code of statements one after the other, along a chain. -/
def walkStatements (ctx : Context) : List Stmt → Walking Fault (List Line)
  | [] => return []
  | s :: ss => do
    let code ← walkStatement ctx s
    let rest ← walkStatements ctx ss
    return code ++ rest

end

/-- The code of a function, along a chain. -/
def walkFunction (abi : Abi) (f : RvBackend.Function) : Walking Fault Asm.Function := do
  let ctx : Context := ⟨abi, f.name⟩
  aside Fault.stop (note "generating function" [("name", f.name)])
  aside Fault.stop (checkParameters abi f)
  aside Fault.stop beginFunction
  inScope f.scope fun i => do
    let fill ← walkInstall ctx f.loc i f.scope
    let body ← walkOptionalBlock ctx f.body
    aside Fault.stop (finishFunction ctx f.loc false (fill ++ body))

/-! ### Programs -/

/-- A failure stops the steps, or is a crash if its fault is one. -/
def Failure.stop (f : Failure) : Stop Failure :=
  match f.fault with
  | .valueless name => .crash (.value name)
  | _ => .fault f

/-- A fault is a failure at a stage; a crash stays one. -/
def Stop.atStage (stage : Stage) : Stop Fault → Stop Failure
  | .fault f => .fault ⟨stage, f⟩
  | .crash c => .crash c

/-- A fault of some steps is a failure at a stage. -/
def walkAtStage {α : Type} (stage : Stage) (x : Walking Fault α) : Walking Failure α :=
  x.adapt (Stop.atStage stage)

/-- The steps that make the code of a program, along a chain. -/
def walkProgram (abi : Abi) (p : RvBackend.Program) : Walking Failure Asm.Program := do
  aside Failure.stop (atStage .program (checkNames abi p))
  inScope p.scope fun _ => do
    let (globals, constants) ← aside Failure.stop (atStage .program do
      let (globals, constants) ← globalStorages p
      note "emitted global storage" [("variables", Text.decimal globals.length),
        ("constants", Text.decimal constants.length)]
      return (globals, constants))
    let functions ← p.functions.mapM fun f => walkAtStage (.function f.name) (walkFunction abi f)
    let ctx : Context := ⟨abi, abi.entry⟩
    let body ← walkAtStage (.entry abi.entry) do
      aside Fault.stop beginFunction
      walkOptionalBlock ctx p.body
    aside Failure.stop (atStage .program do
      let entry ← finishFunction ctx p.loc true body
      let functions := functions ++ [entry]
      note "generation complete" [("functions", Text.decimal functions.length),
        ("labels", Text.decimal (← get).labels)]
      return { file := p.file, globals, constants, functions })

end RvBackend.Lower
