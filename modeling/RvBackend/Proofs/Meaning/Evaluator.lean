import RvBackend.Machine.Input
import RvBackend.Output.Sink
import RvBackend.Proofs.Lower.Made

/-! # What programs mean

A reference evaluator that runs a program as it is written. Values are words of 32 bits. A variable
has no value before it is assigned, and a function that ends without a `return` has none either.
Whoever needs a value that the program does not determine takes it from a list of guesses; with the
empty list the evaluation is undefined there, so an evaluation without guesses tells what the
program itself determines.

* `binary?` and `unary?` are the operators.
* `expr`, `stmt`, `invoke` evaluate expressions, statements and calls.
* `evaluate` runs a program. -/

namespace RvBackend.Meaning

/-- Why an evaluation stops before its end. -/
inductive Stop where
  /-- The program does not determine a value that is needed. -/
  | undefined
  /-- There is no fuel left. -/
  | fuel
  | unknownFunction (name : String)
  | input (fault : Machine.InputFault)
  | outputFull
deriving DecidableEq, Repr

/-- What an evaluation works on. The local cells are those that are visible, the last declared one
first; one without a word has not been assigned yet. -/
structure World where
  locals : List (String × Option Int32) := []
  globals : List (String × Int32) := []
  input : Machine.Input := .absent
  output : Sink := {}
  guesses : List Int32 := []

/-- Steps of evaluation. What has been printed before a stop stays printed. -/
abbrev Evaluation := ExceptT Stop (StateM World)

/-! ### Operators -/

/-- A truth value as a word. -/
def truth (b : Bool) : Int32 := if b then 1 else 0

/-- The difference of two words, wrapped around. -/
def difference (a b : Int32) : Int := (Int32.ofInt (a.toInt - b.toInt)).toInt

/-- The result of an operator on two words, if it has one. Comparisons look at the sign of the
difference. -/
def binary? (a b : Int32) : Operator → Option Int32
  | .plus => some (.ofInt (a.toInt + b.toInt))
  | .minus => some (.ofInt (a.toInt - b.toInt))
  | .times => some (.ofInt (a.toInt * b.toInt))
  | .divide => some (if b = 0 then -1 else .ofInt (a.toInt.tdiv b.toInt))
  | .mod => some (if b = 0 then a else .ofInt (a.toInt.tmod b.toInt))
  | .less => some (truth (difference a b < 0))
  | .lessOrEqual => some (truth (difference a b ≤ 0))
  | .greater => some (truth (0 < difference a b))
  | .greaterOrEqual => some (truth (0 ≤ difference a b))
  | .equal => some (truth (difference a b = 0))
  | .notEqual => some (truth (difference a b ≠ 0))
  | .and => some (truth (a ≠ 0 ∧ b ≠ 0))
  | .or => some (truth (a ≠ 0 ∨ b ≠ 0))
  | .not | .neg | .other _ => none

/-- The result of an operator on one word, if it has one. -/
def unary? (a : Int32) : Operator → Option Int32
  | .neg | .minus => some (.ofInt (-a.toInt))
  | .not => some (truth (a = 0))
  | _ => none

/-! ### Values and cells -/

/-- A value that the program determines, if it is there. -/
def determined : Option Int32 → Evaluation Int32
  | some v => pure v
  | none => throw .undefined

/-- A value that the program does not determine. -/
def guess : Evaluation Int32 := do
  match (← get).guesses with
  | [] => throw .undefined
  | v :: guesses =>
    modify ({ · with guesses })
    return v

/-- The cells with a new value in the first one of that name. -/
def assigned {α : Type} (name : String) (a : α) : List (String × α) → List (String × α)
  | [] => []
  | (key, b) :: cells => if name = key then (key, a) :: cells else (key, b) :: assigned name a cells

/-- The value of a variable. -/
def readVariable (name : String) : Evaluation Int32 := do
  let w ← get
  match w.locals.lookup name with
  | some (some v) => return v
  | some none => guess
  | none => determined (w.globals.lookup name)

/-- The world with a new value of a variable. -/
def World.write (w : World) (name : String) (v : Int32) : World :=
  if (w.locals.lookup name).isSome then { w with locals := assigned name (some v) w.locals }
  else { w with globals := assigned name v w.globals }

/-- Gives a variable a value. -/
def writeVariable (name : String) (v : Int32) : Evaluation Unit := modify (·.write name v)

/-- The cell of an entry; a parameter takes the first argument. -/
def cell (args : List Int32) (e : Entry) : String × Option Int32 :=
  match e.kind with
  | .constant => (e.name, e.value.map Int32.ofInt)
  | .parameter => (e.name, args.head?)
  | _ => (e.name, none)

/-- The cells of entries in the order of their declarations; parameters take the arguments. -/
def cells (args : List Int32) : List Entry → List (String × Option Int32)
  | [] => []
  | e :: es => cell args e :: cells (if e.kind = .parameter then args.tail else args) es

/-- What a scope without parameters adds to the local cells. -/
def scopeCells (scope : Option Table) : List (String × Option Int32) :=
  (cells [] (Table.entriesOf scope)).reverse

/-- Evaluates inside a scope. -/
def within {α : Type} (scope : Option Table) (x : Evaluation α) : Evaluation α := do
  modify fun w => { w with locals := scopeCells scope ++ w.locals }
  let a ← x
  modify fun w => { w with locals := w.locals.drop (scopeCells scope).length }
  return a

/-! ### Input and output -/

/-- Prints an integer on a line of its own. -/
def printInteger (v : Int32) : Evaluation Unit := do
  let (output, fits) := (← get).output.write (Text.decimal v.toInt ++ "\n")
  modify ({ · with output })
  if fits then pure () else throw .outputFull

/-- The next integer of the input. -/
def readInteger : Evaluation Int32 := do
  let (read, input) := (← get).input.nextInteger
  modify ({ · with input })
  match read with
  | .ok v => return v
  | .error fault => throw (.input fault)

/-- What the helper of that name does: it prints its argument and gives it back, or it reads an
integer. -/
def serve (abi : Abi) (helper : String) (argument : Evaluation Int32) : Evaluation Int32 :=
  if helper = abi.printHelper then do
    let v ← argument
    printInteger v
    return v
  else readInteger

/-! ### Expressions and statements -/

section

variable (abi : Abi) (call : String → List Int32 → Evaluation Int32) (fuel : Nat)

mutual

/-- The value of an expression. -/
def expr : Expr → Evaluation Int32
  | .missing => throw .undefined
  | .constant c => return .ofInt c.value
  | .variable r => readVariable r.name
  | .binary _ op left right => do
    let a ← expr left
    let b ← expr right
    determined (binary? a b op)
  | .unary _ op operand => do
    let a ← expr operand
    determined (unary? a op)
  | .call _ callee args => do
    let vs ← exprs args
    call callee vs

/-- The values of expressions, from the first to the last. -/
def exprs : List Expr → Evaluation (List Int32)
  | [] => return []
  | e :: es => do
    let v ← expr e
    let vs ← exprs es
    return v :: vs

end

/-- Repeats a body as long as a test succeeds and the body does not return. -/
def repeated (test : Evaluation Bool) (body : Evaluation (Option Int32)) :
    Nat → Evaluation (Option Int32)
  | 0 => throw .fuel
  | n + 1 => do
    if ← test then
      match ← body with
      | some v => return some v
      | none => repeated test body n
    else return none

/-- The value of a bound of a `for` loop. -/
def boundOf : Expr → Evaluation Int32
  | .constant c => return .ofInt c.value
  | _ => throw .undefined

/-- One round of a `for` loop: the body, and unless it returns, the next value of the variable. -/
def round (var : String) (body : Evaluation (Option Int32)) : Evaluation (Option Int32) := do
  match ← body with
  | some v => return some v
  | none =>
    let i ← readVariable var
    writeVariable var (i + 1)
    return none

mutual

/-- Evaluates a statement. The result is the value with which the statement returns, if it does. -/
def stmt : Stmt → Evaluation (Option Int32)
  | .block b => block b
  | .print _ target => do
    let v ← expr call target
    let _ ← serve abi abi.printHelper (pure v)
    return none
  | .read _ target => do
    let v ← serve abi abi.readHelper guess
    writeVariable target.name v
    return none
  | .assign _ target value => do
    let v ← expr call value
    writeVariable target.name v
    return none
  | .branch _ condition yes no => do
    let v ← expr call condition
    if v = 0 then optionalBlock no else optionalBlock yes
  | .loop _ condition body =>
    repeated (do return (← expr call condition) != 0) (optionalBlock body) fuel
  | .count _ scope var lower upper body =>
    within scope do
      let lo ← boundOf lower
      let hi ← boundOf upper
      writeVariable var lo
      repeated (do return (← readVariable var) != hi) (round var (optionalBlock body)) fuel
  | .ret _ value => do
    let v ← expr call value
    return some v
  | .call _ callee args => do
    let vs ← exprs call args
    let _ ← call callee vs
    return none

/-- Evaluates a block. -/
def block : Block → Evaluation (Option Int32)
  | .mk _ scope _ body => within scope (stmts body)

/-- Evaluates a block that may be missing. -/
def optionalBlock : Option Block → Evaluation (Option Int32)
  | none => return none
  | some b => block b

/-- Evaluates statements up to the first one that returns. -/
def stmts : List Stmt → Evaluation (Option Int32)
  | [] => return none
  | s :: ss => do
    match ← stmt s with
    | some v => return some v
    | none => stmts ss

end

/-- Runs the body of a function on arguments. Parameters without an argument have no value. -/
def apply (f : Function) (args : List Int32) : Evaluation (Option Int32) := do
  let saved := (← get).locals
  modify ({ · with locals := (cells args (Table.entriesOf f.scope)).reverse })
  let result ← optionalBlock abi call fuel f.body
  modify ({ · with locals := saved })
  return result

end

/-! ### Programs -/

/-- The value of a call. A helper that is called by its name is given an argument that the program
does not determine. -/
def invoke (abi : Abi) (p : Program) : Nat → String → List Int32 → Evaluation Int32
  | 0, _, _ => throw .fuel
  | fuel + 1, callee, args =>
    if callee = abi.printHelper ∨ callee = abi.readHelper then serve abi callee guess
    else
      match (Lower.routines abi p).find? (·.name == callee) with
      | none => throw (.unknownFunction callee)
      | some f => do
        match ← apply abi (invoke abi p fuel) fuel f args with
        | some v => return v
        | none => guess

/-- The cell of a global entry before the program runs. -/
def globalCell (e : Entry) : String × Int32 :=
  match e.kind with
  | .constant => (e.name, .ofInt (e.value.getD 0))
  | _ => (e.name, 0)

/-- The world in which a program begins. -/
def World.initial (p : Program) (input : Machine.Input) (output : Sink) : World :=
  { globals := (Table.entriesOf p.scope).map globalCell, input, output }

/-- The steps of a program; the result is the value that its body returns, if it does. -/
def program (abi : Abi) (p : Program) (fuel : Nat) : Evaluation (Option Int32) :=
  apply abi (invoke abi p fuel) fuel (Lower.mainFunction abi p) []

/-- Runs a program without guesses: how it ends, and what it leaves. -/
def evaluate (abi : Abi) (p : Program) (fuel : Nat) (input : Machine.Input) (output : Sink) :
    Except Stop (Option Int32) × World :=
  outcome (program abi p fuel) (World.initial p input output)

end RvBackend.Meaning
