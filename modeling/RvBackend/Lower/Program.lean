import RvBackend.Asm.Program
import RvBackend.Lower.Statement

/-! # Code for programs

A function saves the return address and the frame pointer of its caller, runs its body, and gives
them back. The body of the program becomes the function that the program starts with.

* `lowerProgram` makes the code of a program. -/

namespace RvBackend.Lower

open Asm

/-! ### Names that are taken -/

/-- The names that registers have after their uses. -/
def registerNames : List String :=
  ["zero", "ra", "sp", "gp", "tp", "fp", "t0", "t1", "t2", "t3", "t4", "t5", "t6", "s0", "s1", "s2",
    "s3", "s4", "s5", "s6", "s7", "s8", "s9", "s10", "s11", "a0", "a1", "a2", "a3", "a4", "a5",
    "a6", "a7"]

/-- Whether a name is `x` with the number of a register. -/
def isRegisterNumber (name : String) : Bool :=
  match name.toList with
  | 'x' :: digits => (Text.readInt64 digits).any fun n => 0 ≤ n && n < 32
  | _ => false

/-- Whether an assembler reads the name as a register. -/
def isRegisterName (name : String) : Bool := registerNames.contains name || isRegisterNumber name

/-- What a name is reserved for. -/
def reservation? (abi : Abi) (name : String) : Option Reservation :=
  if name = abi.printHelper ∨ name = abi.readHelper then some .helper
  else if name = abi.entry then some .entry
  else none

/-- Refuses a function with a name that is taken. -/
def checkFunctionName (abi : Abi) (f : RvBackend.Function) : Except Fault Unit :=
  match reservation? abi f.name with
  | some use => .error (.unsupported f.loc (.reservedFunction f.name use))
  | none =>
    if isRegisterName f.name then .error (.unsupported f.loc (.registerFunction f.name)) else .ok ()

/-- Refuses a global entry with a name that is taken. -/
def checkGlobalName (abi : Abi) (loc : Location) (e : Entry) : Except Fault Unit :=
  match reservation? abi e.name with
  | some use => .error (.unsupported loc (.reservedGlobal e.name use))
  | none => if isRegisterName e.name then .error (.unsupported loc (.registerGlobal e.name))
      else .ok ()

/-- Refuses a program with a name that is taken. -/
def checkNames (abi : Abi) (p : RvBackend.Program) : Except Fault Unit := do
  p.functions.forM (checkFunctionName abi)
  (Table.entriesOf p.scope).forM (checkGlobalName abi p.loc)

/-! ### Global storage -/

/-- A global entry is a variable or a constant. -/
def globalStorage (loc : Location) (e : Entry) :
    Except Fault (GlobalVariable ⊕ GlobalConstant) := do
  unless e.type.isScalar do throw (.unsupported loc (.globalType e.name e.type))
  match e.kind with
  | .variable => return .inl { label := e.name }
  | .constant =>
    match e.value with
    | none => throw (.valueless e.name)
    | some v =>
      let _ ← immediate loc v
      return .inr { label := e.name, value := v }
  | kind => throw (.unsupported loc (.globalKind kind e.name))

/-- The storage of the global entries. -/
def globalStorages (p : RvBackend.Program) :
    Except Fault (List GlobalVariable × List GlobalConstant) := do
  let storages ← (Table.entriesOf p.scope).mapM (globalStorage p.loc)
  return (storages.filterMap Sum.getLeft?, storages.filterMap Sum.getRight?)

/-! ### Functions -/

/-- The code of a function with a frame of some size around the code of its body. -/
def frameCode (ctx : Context) (size : Int64) (body : List Line) : List Line :=
  [.remark ("frame size: " ++ Text.decimal size.toInt ++ " bytes"),
    .op "addi" [sp, sp, .imm (-size)],
    .op "sw" [ra, .mem (size - wordSize) "sp"],
    .op "sw" [s0, .mem (size - 2 * wordSize) "sp"],
    .op "addi" [s0, sp, .imm size]] ++
  body ++
  [.label ctx.exitLabel,
    .op "lw" [ra, .mem (size - wordSize) "sp"],
    .op "lw" [s0, .mem (size - 2 * wordSize) "sp"],
    .op "addi" [sp, sp, .imm size],
    .op "jr" [ra]]

/-- The slots of a function are given out from the top of its frame. -/
def beginFunction : Lowering Unit := modify fun p => { p with cursor := ({} : Progress).cursor }

/-- The function around the code of its body, with a frame for the slots given out. -/
def finishFunction (ctx : Context) (loc : Location) (isGlobal : Bool) (body : List Line) :
    Lowering Asm.Function := do
  let cursor := (← get).cursor
  let size ← frameSize ctx loc cursor
  note "function frame" [("name", ctx.function), ("slots_bytes", Text.decimal (-cursor).toInt),
    ("frame_size", Text.decimal size.toInt)]
  return { name := ctx.function, isGlobal, lines := frameCode ctx size body }

/-- Refuses a function with more parameters than there are registers. -/
def checkParameters (abi : Abi) (f : RvBackend.Function) : Except Fault Unit :=
  let count := (Table.entriesOf f.scope).countP (·.kind = .parameter)
  if count ≤ abi.maxArgs then .ok ()
  else .error (.unsupported f.loc (.parameters f.name count abi.maxArgs))

/-- The code of a function. -/
def lowerFunction (abi : Abi) (globals : Scopes) (f : RvBackend.Function) :
    Lowering Asm.Function := do
  let ctx : Context := ⟨abi, f.name⟩
  note "generating function" [("name", f.name)]
  checkParameters abi f
  beginFunction
  let (scope, fill) ← install ctx f.loc f.scope
  let body ← optionalBlock ctx (globals.enter scope) f.body
  finishFunction ctx f.loc false (fill ++ body)

/-! ### Programs -/

/-- A fault of some steps is a failure at a stage. -/
def atStage {α : Type} (stage : Stage) (steps : Lowering α) : ExceptT Failure (StateM Progress) α :=
  steps.adapt (Failure.mk stage)

/-- The steps that make the code of a program. -/
def programSteps (abi : Abi) (p : RvBackend.Program) :
    ExceptT Failure (StateM Progress) Asm.Program := do
  let (globals, constants) ← atStage .program do
    checkNames abi p
    let (globals, constants) ← globalStorages p
    note "emitted global storage" [("variables", Text.decimal globals.length),
      ("constants", Text.decimal constants.length)]
    return (globals, constants)
  let scopes := Scopes.enter [] p.scope
  let functions ← p.functions.mapM fun f => atStage (.function f.name) (lowerFunction abi scopes f)
  let ctx : Context := ⟨abi, abi.entry⟩
  let body ← atStage (.entry abi.entry) do
    beginFunction
    optionalBlock ctx scopes p.body
  atStage .program do
    let entry ← finishFunction ctx p.loc true body
    let functions := functions ++ [entry]
    note "generation complete" [("functions", Text.decimal functions.length),
      ("labels", Text.decimal (← get).labels)]
    return { file := p.file, globals, constants, functions }

/-- The outcome of a generation: the code or why there is none, and what was told up to there. -/
structure Generation where
  code : Except Failure Asm.Program
  slots : List Int64
  log : List LogRecord

/-- The code of a program. -/
def lowerProgram (abi : Abi) (p : RvBackend.Program) : Generation :=
  let (code, progress) := (programSteps abi p).run {}
  { code, slots := progress.slots.toList, log := progress.log.toList }

end RvBackend.Lower
