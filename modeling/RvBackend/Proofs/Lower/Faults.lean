import RvBackend.Lower.Emit
import RvBackend.Proofs.Lower.Made
import RvBackend.Proofs.Tree.Occurrences

/-! # Faults of programs that were read

Generation stops at a name that is not declared or at a construct that there is no code for, and
says so. A constant without a value is a fault of another kind: nothing is said of it, and no tree
that was read from a text has one.

* `explains_statement` and its companions: where all constants have their values, every fault is
  told.
* `told_of_decoded`: so it is for every program that was read. -/

namespace RvBackend.Lower

open Asm

/-- A fault that says which name or construct there is no code for. -/
def Fault.Told : Fault → Prop
  | .unresolved _ _ => True
  | .unsupported _ _ => True
  | .valueless _ => False

/-! ### Expressions -/

/-- If there is no result, the fault is told. -/
def Explains {α : Type} (x : Except Fault α) : Prop := ∀ f, x = .error f → f.Told

section

variable {α β : Type}

theorem explains_ok (a : α) : Explains (.ok a) := by
  intro f h
  cases h

theorem explains_error {f : Fault} (h : f.Told) : Explains (.error f : Except Fault α) := by
  intro f' h'
  cases h'
  exact h

theorem explains_throw_bind {e : Fault} {f : α → Except Fault β} (h : e.Told) :
    Explains ((throw e : Except Fault α) >>= f) :=
  explains_error h

theorem Explains.bind {x : Except Fault α} {f : α → Except Fault β} (hx : Explains x)
    (hf : ∀ a, Explains (f a)) :
    Explains (x >>= f) := by
  cases x with
  | error e => exact explains_error (hx e rfl)
  | ok a => exact hf a

end

theorem explains_immediate (loc : Location) (v : ℤ) : Explains (immediate loc v) := by
  unfold immediate
  split
  · exact explains_ok _
  · exact explains_error trivial

theorem explains_resolve (scopes : Scopes) (loc : Location) (name : String) :
    Explains (resolve scopes loc name) := by
  unfold resolve
  split
  · exact explains_error trivial
  · split
    · exact explains_ok _
    · exact explains_error trivial

theorem explains_operation (loc : Location) (op : Operator) : Explains (operation loc op) := by
  cases op with
  | plus | minus | times | divide | mod | and | or => exact explains_ok _
  | less | lessOrEqual | greater | greaterOrEqual | equal | notEqual => exact explains_ok _
  | not | neg | other => exact explains_error trivial

theorem explains_unaryOperation (loc : Location) (op : Operator) :
    Explains (unaryOperation loc op) := by
  cases op with
  | neg | minus | not => exact explains_ok _
  | _ => exact explains_error trivial

theorem explains_literal (c : Constant) : Explains (literal c) := by
  unfold literal
  split
  · exact (explains_immediate c.loc c.value).bind fun _ => explains_ok _
  · exact explains_throw_bind trivial

theorem explains_checkArguments (abi : Abi) (loc : Location) (callee : String) (count : ℕ) :
    Explains (checkArguments abi loc callee count) := by
  unfold checkArguments
  split
  · exact explains_ok _
  · exact explains_error trivial

mutual

theorem explains_expression (abi : Abi) (scopes : Scopes) :
    ∀ e : Expr, Explains (expression abi scopes e)
  | .missing => explains_error trivial
  | .constant c => explains_literal c
  | .variable r => (explains_resolve scopes r.loc r.name).bind fun _ => explains_ok _
  | .binary loc op left right => by
    rw [expression]
    exact (explains_expression abi scopes left).bind fun _ =>
      (explains_expression abi scopes right).bind fun _ =>
      (explains_operation loc op).bind fun _ => explains_ok _
  | .unary loc op operand => by
    rw [expression]
    exact (explains_expression abi scopes operand).bind fun _ =>
      (explains_unaryOperation loc op).bind fun _ =>
      explains_ok _
  | .call loc callee args => by
    rw [expression]
    exact (explains_checkArguments abi loc callee _).bind fun _ =>
      (explains_arguments abi scopes callee 0 args).bind
      fun _ => explains_ok _

theorem explains_arguments (abi : Abi) (scopes : Scopes) (callee : String) (i : ℕ) :
    ∀ es : List Expr,
    Explains (arguments abi scopes callee i es)
  | [] => explains_ok _
  | e :: es => by
    rw [arguments]
    exact (explains_expression abi scopes e).bind fun _ =>
      (explains_arguments abi scopes callee (i + 1) es).bind
      fun _ => explains_ok _

end

theorem explains_boundValue (bound : Bound) (e : Expr) : Explains (boundValue bound e) := by
  unfold boundValue
  split
  · split
    · exact explains_immediate _ _
    · exact explains_error trivial
  · exact explains_error trivial

theorem explains_boundValues (loc : Location) (lower upper : Expr) :
    Explains (boundValues loc lower upper) := by
  unfold boundValues
  refine (explains_boundValue .lower lower).bind fun lo => (explains_boundValue .upper upper).bind
    fun hi => ?_
  split
  · exact explains_ok _
  · exact explains_error trivial

/-! ### Scopes -/

/-- If steps fail, the fault is told. -/
abbrev StepsExplain {α : Type} (x : Lowering α) : Prop := OnlyFails Fault.Told x

theorem stepsExplain_lift {α : Type} {x : Except Fault α} (h : Explains x) :
    StepsExplain (liftM x : Lowering α) :=
  onlyFails_lift h

theorem explains_fillSlot {abi : Abi} {loc : Location} {params : ℕ} {e : Entry} (he : e.Decoded) :
    Explains (fillSlot abi loc params e) := by
  unfold fillSlot
  split
  · next hkind =>
    split
    · next hvalue => exact absurd (he hkind) (by simp [hvalue])
    · exact (explains_immediate loc _).bind fun _ => explains_ok _
  · split
    · exact explains_error trivial
    · exact explains_ok _
  · exact explains_ok _

theorem explains_installEntries (abi : Abi) (loc : Location) : ∀ (params : ℕ) {es : List Entry},
    (∀ e ∈ es, e.Decoded) → StepsExplain (installEntries abi loc params es)
  | _, [], _ => onlyFails_pure _
  | params, e :: es, h => by
    rw [List.forall_mem_cons] at h
    rw [installEntries]
    split
    · refine (onlyFails_modifyGet _).bind fun slot => ?_
      refine (stepsExplain_lift (@explains_fillSlot abi loc params { e with slot } h.1)).bind
        fun code => ?_
      exact (explains_installEntries abi loc _ h.2).bind fun _ => onlyFails_pure _
    · exact onlyFails_throw_bind trivial

theorem explains_install (ctx : Context) (loc : Location) {t : Option Table}
    (h : ∀ e ∈ Table.entriesOf t, e.Decoded) : StepsExplain (install ctx loc t) := by
  cases t with
  | none => exact onlyFails_pure _
  | some t =>
    refine (explains_installEntries ctx.abi loc 0 h).bind ?_
    rintro ⟨es, code⟩
    dsimp only
    split
    · exact onlyFails_pure _
    · exact onlyFails_get.bind fun _ => (onlyFails_modify _).bind fun _ => onlyFails_pure _

/-! ### Statements -/

/-- All places among some names that are visible are such as in a tree that was read. -/
def Sound (places : List Occurrence) : Prop := ∀ o ∈ places, o.Decoded

section

variable {ctx : Context}

mutual

theorem explains_statement :
    ∀ {s : Stmt} {scopes : Scopes} {visible : List String}, Sound (s.occurrences visible) →
    StepsExplain (statement ctx scopes s)
  | .block b, _, _, h => explains_block h
  | .print _ target, scopes, _, _ =>
    stepsExplain_lift ((explains_expression ctx.abi scopes target).bind fun _ => explains_ok _)
  | .read _ target, scopes, _, _ =>
    stepsExplain_lift ((explains_resolve scopes target.loc target.name).bind fun _ => explains_ok _)
  | .assign _ target value, scopes, _, _ =>
    stepsExplain_lift ((explains_resolve scopes target.loc target.name).bind fun _ =>
      (explains_expression ctx.abi scopes value).bind fun _ => explains_ok _)
  | .branch _ condition yes no, scopes, visible, h => by
    rw [Sound, Stmt.occurrences, List.forall_mem_append, List.forall_mem_append] at h
    rw [statement]
    refine (onlyFails_modifyGet _).bind fun otherwise => (onlyFails_modifyGet _).bind fun done => ?_
    refine (stepsExplain_lift
      ((explains_expression ctx.abi scopes condition).bind fun _ => explains_ok _)).bind fun test =>
      ?_
    exact (explains_optionalBlock h.2.1).bind fun _ => (explains_optionalBlock h.2.2).bind fun _ =>
      onlyFails_pure _
  | .loop _ condition body, scopes, visible, h => by
    rw [Sound, Stmt.occurrences, List.forall_mem_append] at h
    rw [statement]
    refine (onlyFails_modifyGet _).bind fun again => (onlyFails_modifyGet _).bind fun done => ?_
    refine (stepsExplain_lift
      ((explains_expression ctx.abi scopes condition).bind fun _ => explains_ok _)).bind fun test =>
      ?_
    exact (explains_optionalBlock h.2).bind fun _ => onlyFails_pure _
  | .count loc scope var lower upper body, scopes, visible, h => by
    rw [Sound, Stmt.occurrences, List.forall_mem_cons, List.forall_mem_cons,
      List.forall_mem_cons] at h
    rw [statement]
    refine (stepsExplain_lift (explains_boundValues loc lower upper)).bind fun bounds => ?_
    refine (explains_install ctx loc h.2.1).bind fun scope' => ?_
    refine (stepsExplain_lift (explains_resolve _ loc var)).bind fun e => ?_
    refine (onlyFails_modifyGet _).bind fun again => (onlyFails_modifyGet _).bind fun done => ?_
    exact (explains_optionalBlock h.2.2.2).bind fun _ => onlyFails_pure _
  | .ret _ value, scopes, _, _ =>
    stepsExplain_lift ((explains_expression ctx.abi scopes value).bind fun _ => explains_ok _)
  | .call loc callee args, scopes, _, _ => by
    rw [statement]
    exact (stepsExplain_lift (explains_expression ctx.abi scopes (.call loc callee args))).bind
      fun _ => onlyFails_pure _

theorem explains_block :
    ∀ {b : Block} {scopes : Scopes} {visible : List String}, Sound (b.occurrences visible) →
    StepsExplain (block ctx scopes b)
  | .mk loc scope _ _, scopes, visible, h => by
    rw [Sound, Block.occurrences, List.forall_mem_cons] at h
    rw [block]
    exact (explains_install ctx loc h.1).bind fun _ => (explains_statements h.2).bind fun _ =>
      onlyFails_pure _

theorem explains_optionalBlock : ∀ {b : Option Block} {scopes : Scopes} {visible : List String},
    Sound (blockOccurrences visible b) → StepsExplain (optionalBlock ctx scopes b)
  | none, _, _, _ => onlyFails_pure _
  | some _, _, _, h => explains_block h

theorem explains_statements : ∀ {ss : List Stmt} {scopes : Scopes} {visible : List String},
    Sound (statementsOccurrences visible ss) → StepsExplain (statements ctx scopes ss)
  | [], _, _, _ => onlyFails_pure _
  | s :: ss, _, _, h => by
    rw [Sound, statementsOccurrences, List.forall_mem_append] at h
    rw [statements]
    exact (explains_statement h.1).bind fun _ => (explains_statements h.2).bind fun _ =>
      onlyFails_pure _

end

end

/-! ### Programs -/

theorem explains_frameSize (ctx : Context) (loc : Location) (cursor : Int64) :
    Explains (frameSize ctx loc cursor) := by
  unfold frameSize
  dsimp only
  split
  · exact explains_ok _
  · exact explains_error trivial

theorem explains_finishFunction (ctx : Context) (loc : Location) (isGlobal : Bool)
    (body : List Line) :
    StepsExplain (finishFunction ctx loc isGlobal body) := by
  unfold finishFunction
  refine onlyFails_get.bind fun p => (stepsExplain_lift (explains_frameSize ctx loc _)).bind
    fun size => ?_
  exact (onlyFails_modify _).bind fun _ => onlyFails_pure _

theorem explains_lowerFunction (abi : Abi) (globals : Scopes) {f : RvBackend.Function}
    (h : AllDecoded f.occurrences) :
    StepsExplain (lowerFunction abi globals f) := by
  have hplaces : Sound (f.occurrences []) := h []
  rw [Sound, Function.occurrences, List.forall_mem_cons] at hplaces
  have hparameters : Explains (checkParameters abi f) := by
    unfold checkParameters
    dsimp only
    split
    · exact explains_ok _
    · exact explains_error trivial
  unfold lowerFunction
  refine (onlyFails_modify _).bind fun _ => (stepsExplain_lift hparameters).bind fun _ => ?_
  refine (onlyFails_modify _).bind fun _ => (explains_install _ f.loc hplaces.1).bind fun scope =>
    ?_
  exact (explains_optionalBlock hplaces.2).bind fun _ => explains_finishFunction _ f.loc false _

theorem explains_forM {α : Type} {f : α → Except Fault Unit} (h : ∀ x, Explains (f x)) :
    ∀ xs : List α,
    Explains (xs.forM f)
  | [] => explains_ok _
  | x :: xs => (h x).bind fun _ => explains_forM h xs

theorem explains_mapM {α β : Type} {f : α → Except Fault β} :
    ∀ {xs : List α}, (∀ x ∈ xs, Explains (f x)) →
    Explains (xs.mapM f)
  | [], _ => explains_ok _
  | x :: xs, h => by
    rw [List.forall_mem_cons] at h
    rw [List.mapM_cons]
    exact h.1.bind fun _ => (explains_mapM h.2).bind fun _ => explains_ok _

theorem explains_checkNames (abi : Abi) (p : RvBackend.Program) : Explains (checkNames abi p) := by
  have hfunction : ∀ f, Explains (checkFunctionName abi f) := by
    intro f
    unfold checkFunctionName
    split
    · exact explains_error trivial
    · split
      · exact explains_error trivial
      · exact explains_ok _
  have hglobal : ∀ e, Explains (checkGlobalName abi p.loc e) := by
    intro e
    unfold checkGlobalName
    split
    · exact explains_error trivial
    · split
      · exact explains_error trivial
      · exact explains_ok _
  exact (explains_forM hfunction _).bind fun _ => explains_forM hglobal _

theorem explains_globalStorage (loc : Location) {e : Entry} (he : e.Decoded) :
    Explains (globalStorage loc e) := by
  simp only [globalStorage]
  split
  · split
    · exact explains_ok _
    · next hkind =>
      split
      · next hvalue => exact absurd (he hkind) (by simp [hvalue])
      · exact (explains_immediate loc _).bind fun _ => explains_ok _
    · exact explains_error trivial
  · exact explains_throw_bind trivial

theorem explains_globalStorages {p : RvBackend.Program}
    (h : ∀ e ∈ Table.entriesOf p.scope, e.Decoded) :
    Explains (globalStorages p) :=
  (explains_mapM fun e he => explains_globalStorage p.loc (h e he)).bind fun _ => explains_ok _

theorem explains_atStage {α : Type} {stage : Stage} {x : Lowering α} (h : StepsExplain x) :
    OnlyFails (fun f : Failure => f.fault.Told) (atStage stage x) := by
  intro p f hf
  have hstage : (outcome (atStage stage x) p).1 = (outcome x p).1.mapError (Failure.mk stage) := rfl
  rw [hstage] at hf
  cases hx : (outcome x p).1 with
  | error e =>
    rw [hx] at hf
    obtain rfl : Failure.mk stage e = f := Except.error.inj hf
    exact h p e hx
  | ok a =>
    rw [hx] at hf
    cases hf

/-- **What is wrong with a program that was read is told.** -/
theorem told_of_decoded {abi : Abi} {p : RvBackend.Program} (h : p.Decoded) {f : Failure}
    (hcode : (lowerProgram abi p).code = .error f) : f.fault.Told := by
  have hsteps : OnlyFails (fun f : Failure => f.fault.Told) (programSteps abi p) := by
    unfold programSteps
    refine (explains_atStage ?_).bind fun storages => ?_
    · refine (stepsExplain_lift (explains_checkNames abi p)).bind fun _ => ?_
      refine (stepsExplain_lift (explains_globalStorages h.scope)).bind fun storages => ?_
      exact (onlyFails_modify _).bind fun _ => onlyFails_pure _
    refine (onlyFails_mapM fun f hf => explains_atStage
      (explains_lowerFunction abi _ (h.functions f hf))).bind fun functions => ?_
    refine (explains_atStage
      ((onlyFails_modify _).bind fun _ => explains_optionalBlock (h.body []))).bind fun body =>
      explains_atStage ?_
    refine (explains_finishFunction _ p.loc true body).bind fun entry => ?_
    exact onlyFails_get.bind fun _ => (onlyFails_modify _).bind fun _ => onlyFails_pure _
  exact hsteps {} f hcode

end RvBackend.Lower
