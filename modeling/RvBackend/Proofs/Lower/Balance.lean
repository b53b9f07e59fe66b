import RvBackend.Proofs.Lower.Faults
import RvBackend.Proofs.Lower.Walk

/-! # Scopes that are closed again

Generation along a chain of scopes comes to the same as generation that hands the visible tables
down, and the chain is as it was whenever a call returns: behind the code, and behind a fault in the
middle of it. What is wrong with a program that was read is a fault that can be told, so its
generation never crashes.

* `Agrees`: steps along a chain come to the same as those that are handed the tables, and leave the
  chain as it was.
* `agrees_inScope`: a scope that is opened is closed again.
* `generation_balanced`: generation ends with code or a fault, and closes each scope that it
  opens. -/

namespace RvBackend.Lower

open Asm

section

variable {ε α β : Type} {stop : ε → Stop ε}

/-- The steps `x` along a chain come to the same as the steps `y` that are handed the visible
tables, and leave the chain as it was, whatever they come to. -/
def Agrees (stop : ε → Stop ε) (x : Walking ε α) (y : Scopes → ExceptT ε (StateM Progress) α) :
    Prop :=
  ∀ (p : Progress) (c : Chain), c.Formed → ∃ c', c.Restored c' ∧
    outcome x ⟨p, c⟩ = ((outcome (y c.scopes) p).1.mapError stop, ⟨(outcome (y c.scopes) p).2, c'⟩)

theorem agrees_aside (x : ExceptT ε (StateM Progress) α) : Agrees stop (aside stop x) fun _ => x :=
  fun _ c _ => ⟨c, .refl c, rfl⟩

theorem agrees_pure (a : α) : Agrees stop (pure a) fun _ => pure a := fun _ c _ => ⟨c, .refl c, rfl⟩

theorem Agrees.bind {x : Walking ε α} {y : Scopes → ExceptT ε (StateM Progress) α}
    {f : α → Walking ε β} {g : α → Scopes → ExceptT ε (StateM Progress) β} (hx : Agrees stop x y)
    (hf : ∀ a, Agrees stop (f a) (g a)) :
    Agrees stop (x >>= f) fun scopes => y scopes >>= fun a => g a scopes := by
  intro p c hc
  obtain ⟨c', hrestored, hout⟩ := hx p c hc
  rw [outcome_bind, outcome_bind, hout]
  rcases outcome (y c.scopes) p with ⟨e | a, q⟩
  · exact ⟨c', hrestored, rfl⟩
  · obtain ⟨c'', hrestored', hout'⟩ := hf a q c' (hc.of_restored hrestored)
    rw [hrestored.scopes hc] at hout'
    exact ⟨c'', hrestored.trans hrestored', hout'⟩

theorem liftM_bind {σ : Type} (x : Except ε α) (f : α → Except ε β) :
    (liftM (x >>= f) : ExceptT ε (StateM σ) β) = liftM x >>= fun a => liftM (f a) := by
  cases x <;> rfl

/-- The same for steps that may fail but do nothing else. -/
theorem Agrees.bind_lift {x : Walking ε α} {y : Scopes → Except ε α} {f : α → Walking ε β}
    {g : α → Scopes → Except ε β} (hx : Agrees stop x fun scopes => liftM (y scopes))
    (hf : ∀ a, Agrees stop (f a) fun scopes => liftM (g a scopes)) :
    Agrees stop (x >>= f) fun scopes => liftM (y scopes >>= fun a => g a scopes) := by
  simp only [liftM_bind]
  exact hx.bind hf

theorem agrees_throw (stop : ε → Stop ε) (e : ε) :
    Agrees stop (throw (stop e) : Walking ε α) fun _ => throw e :=
  fun _ c _ => ⟨c, .refl c, rfl⟩

theorem agrees_mapM {f : α → Walking ε β} {g : α → Scopes → ExceptT ε (StateM Progress) β}
    (h : ∀ a, Agrees stop (f a) (g a)) : ∀ as : List α,
    Agrees stop (as.mapM f) fun scopes => as.mapM fun a => g a scopes
  | [] => by
    simp only [List.mapM_nil]
    exact agrees_pure []
  | a :: as => by
    simp only [List.mapM_cons]
    exact (h a).bind fun _ => (agrees_mapM h as).bind fun _ => agrees_pure _

theorem outcome_inScope (t : Option Table) (body : ℕ → Walking ε α) (p : Progress) (c : Chain) :
    outcome (inScope t body) ⟨p, c⟩ =
      leave c.tables.length (outcome (body c.tables.length) ⟨p, c.opened t⟩) := by
  unfold outcome inScope
  rw [ExceptT.run_mk]
  simp only [Chain.enter_place]
  rfl

/-- **A scope that is opened is closed again**, whatever the steps under it come to. -/
theorem agrees_inScope {t : Option Table} {body : ℕ → Walking ε α}
    {y : Scopes → ExceptT ε (StateM Progress) α}
    (h : ∀ (p : Progress) (c : Chain), c.Formed → ∃ t' c', (c.opened t').Restored c' ∧
      outcome (body c.tables.length) ⟨p, c.opened t⟩ =
        ((outcome (y c.scopes) p).1.mapError stop, ⟨(outcome (y c.scopes) p).2, c'⟩)) :
    Agrees stop (inScope t body) y := by
  intro p c hc
  obtain ⟨t', c', hrestored, hout⟩ := h p c hc
  obtain ⟨hexit, hclosed⟩ := Chain.exit_of_restored hrestored
  refine ⟨_, hclosed, ?_⟩
  rw [outcome_inScope, hout, leave]
  simp only [hexit]

end

theorem agrees_look {α : Type} (f : Scopes → Except Fault α) :
    Agrees Fault.stop (look f) fun scopes => liftM (f scopes) :=
  fun _ c _ => ⟨c, .refl c, rfl⟩

/-! ### Expressions -/

section

variable {abi : Abi}

theorem argRegister?_ofNat (i : ℕ) : abi.argRegister? i = abi.registers[i]? := rfl

/-- There is a register for each of as many arguments as a call may have. -/
theorem walkTransfer_eq : ∀ {n : ℕ}, n ≤ abi.maxArgs →
    walkTransfer abi n = pure ((abi.registers.take n).reverse.flatMap fun r => pop (.reg r))
  | 0, _ => rfl
  | n + 1, h => by
    have hn : n < abi.registers.length := h
    rw [walkTransfer, argumentRegister, argRegister?_ofNat, List.getElem?_eq_getElem hn,
      walkTransfer_eq (by omega), List.take_succ_eq_append_getElem hn, List.reverse_append]
    rfl

mutual

theorem agrees_expression : ∀ e : Expr,
    Agrees Fault.stop (walkExpression abi e) fun scopes => liftM (expression abi scopes e)
  | .missing => by
    simp only [walkExpression, expression]
    exact agrees_throw Fault.stop (.unsupported {} .missingExpression)
  | .constant c => by
    simp only [walkExpression, expression]
    exact agrees_aside _
  | .variable r => by
    simp only [walkExpression, expression]
    exact agrees_look _
  | .binary loc op left right => by
    simp only [walkExpression, expression]
    exact (agrees_expression left).bind_lift fun _ => (agrees_expression right).bind_lift fun _ =>
      (agrees_aside _).bind_lift fun _ => agrees_pure _
  | .unary loc op operand => by
    simp only [walkExpression, expression]
    exact (agrees_expression operand).bind_lift fun _ => (agrees_aside _).bind_lift fun _ =>
      agrees_pure _
  | .call loc callee args => by
    simp only [walkExpression, expression]
    by_cases hcount : args.length ≤ abi.maxArgs
    · rw [walkTransfer_eq hcount]
      refine (agrees_aside _).bind_lift fun _ => (agrees_arguments callee 0 args).bind_lift fun _ =>
        ?_
      exact agrees_pure _
    · have hrefused : checkArguments abi loc callee args.length = .error _ := if_neg hcount
      rw [hrefused]
      exact fun p c hc => ⟨c, .refl c, rfl⟩

theorem agrees_arguments (callee : String) (i : ℕ) : ∀ es : List Expr,
    Agrees Fault.stop (walkArguments abi callee i es) fun scopes =>
      liftM (arguments abi scopes callee i es)
  | [] => by
    simp only [walkArguments, arguments]
    exact agrees_pure _
  | e :: es => by
    simp only [walkArguments, arguments]
    exact (agrees_expression e).bind_lift fun _ => (agrees_arguments callee (i + 1) es).bind_lift
      fun _ => agrees_pure _

end

end

/-! ### Scopes -/

theorem agrees_fill (abi : Abi) (loc : Location) (params : ℕ) (e : Entry) :
    Agrees Fault.stop (walkFill abi loc params e) fun _ => liftM (fillSlot abi loc params e) := by
  cases hkind : e.kind with
  | constant =>
    cases hvalue : e.value with
    | none =>
      simp only [walkFill, fillSlot, hkind, hvalue]
      exact agrees_throw Fault.stop (.valueless e.name)
    | some v =>
      simp only [walkFill, fillSlot, hkind, hvalue]
      exact (agrees_aside _).bind_lift fun _ => agrees_pure _
  | parameter =>
    simp only [walkFill, fillSlot, hkind, argumentRegister, argRegister?_ofNat]
    by_cases hfull : abi.maxArgs ≤ params
    · rw [if_pos hfull, List.getElem?_eq_none hfull]
      exact agrees_throw Fault.stop (.unsupported loc (.parameter e.name abi.maxArgs))
    · have hlt : params < abi.registers.length := Nat.lt_of_not_le hfull
      rw [if_neg hfull, List.getElem?_eq_getElem hlt]
      exact agrees_pure _
  | _ =>
    simp only [walkFill, fillSlot, hkind]
    exact agrees_pure _

theorem agrees_entries (abi : Abi) (loc : Location) : ∀ (es : List Entry) (params : ℕ),
    Agrees Fault.stop (walkEntries abi loc params es) fun _ => installEntries abi loc params es
  | [], _ => agrees_pure _
  | e :: es, params => by
    simp only [walkEntries, installEntries]
    split
    · refine Agrees.bind (agrees_aside _) fun slot => ?_
      refine Agrees.bind (agrees_fill abi loc params { e with slot }) fun code => ?_
      exact Agrees.bind (agrees_entries abi loc es _) fun _ => agrees_pure _
    · exact fun p c hc => ⟨c, .refl c, rfl⟩

theorem isSome_install {ctx : Context} {loc : Location} {t t' : Option Table} {code : List Line}
    {p q : Progress} (h : Made (install ctx loc t) p (t', code) q) : t.isSome = t'.isSome := by
  cases t with
  | none =>
    obtain ⟨rfl, -, -⟩ := made_install_none h
    rfl
  | some t =>
    obtain ⟨_, _, _, rfl, -⟩ := made_install_some h
    rfl

theorem agrees_table (ctx : Context) (loc : Location) : ∀ t : Option Table,
    Agrees Fault.stop (walkTable ctx loc t) fun _ => install ctx loc t
  | none => agrees_pure _
  | some t => by
    simp only [walkTable, install]
    refine Agrees.bind (agrees_entries ctx.abi loc t.entries 0) ?_
    rintro ⟨entries, code⟩
    dsimp only
    split
    · exact agrees_pure _
    · exact fun p c hc => ⟨c, .refl c, rfl⟩

/-- **The scope of a node**: it is opened, gets its slots, and is closed again behind the rest. -/
theorem agrees_scope {α : Type} {ctx : Context} {loc : Location} {t : Option Table}
    {f : List Line → Walking Fault α} {g : List Line → Scopes → Lowering α}
    (h : ∀ fill, Agrees Fault.stop (f fill) (g fill)) :
    Agrees Fault.stop (inScope t fun i => walkInstall ctx loc i t >>= f)
      fun scopes => install ctx loc t >>= fun made => g made.2 (scopes.enter made.1) := by
  refine agrees_inScope fun p c hc => ?_
  obtain ⟨c₁, hrestored, hout⟩ := agrees_table ctx loc t p (c.opened t) (hc.opened t)
  rw [outcome_bind, outcome_bind, walkInstall, outcome_bind, hout]
  rcases hinstall : outcome (install ctx loc t) p with ⟨e | ⟨t', code⟩, q⟩
  · exact ⟨t, c₁, hrestored, rfl⟩
  · have hput := hrestored.put (isSome_install hinstall)
    obtain ⟨c₂, hrestored', hout'⟩ := h code q _ ((hc.opened t').of_restored hput)
    refine ⟨t', c₂, hput.trans hrestored', ?_⟩
    rw [hput.scopes (hc.opened t'), Chain.scopes_opened hc] at hout'
    exact hout'

/-! ### Statements -/

section

variable {ctx : Context}

theorem agrees_test (condition : Expr) (otherwise : String) :
    Agrees Fault.stop (walkTest ctx condition otherwise) fun scopes =>
      liftM (testCode ctx scopes condition otherwise) :=
  (agrees_expression condition).bind_lift fun _ => agrees_pure _

mutual

theorem agrees_statement :
    ∀ s : Stmt, Agrees Fault.stop (walkStatement ctx s) fun scopes => statement ctx scopes s
  | .block b => by
    simp only [walkStatement, statement]
    exact agrees_block b
  | .print _ target => by
    simp only [walkStatement, statement, printCode]
    exact (agrees_expression target).bind_lift fun _ => agrees_pure _
  | .read _ target => by
    simp only [walkStatement, statement]
    exact agrees_look _
  | .assign _ target value => by
    simp only [walkStatement, statement, assignCode]
    exact (agrees_look _).bind_lift fun _ => (agrees_expression value).bind_lift fun _ =>
      agrees_pure _
  | .branch _ condition yes no => by
    simp only [walkStatement, statement]
    refine Agrees.bind (agrees_aside _) fun otherwise => Agrees.bind (agrees_aside _) fun done => ?_
    refine Agrees.bind (agrees_test condition otherwise) fun test => ?_
    exact (agrees_optionalBlock yes).bind fun _ => (agrees_optionalBlock no).bind fun _ =>
      agrees_pure _
  | .loop _ condition body => by
    simp only [walkStatement, statement]
    refine Agrees.bind (agrees_aside _) fun again => Agrees.bind (agrees_aside _) fun done => ?_
    refine Agrees.bind (agrees_test condition done) fun test => ?_
    exact (agrees_optionalBlock body).bind fun _ => agrees_pure _
  | .count loc scope var lower upper body => by
    simp only [walkStatement, statement]
    refine Agrees.bind (agrees_aside _) fun bounds => agrees_scope (g := fun fill scopes => do
      let e ← resolve scopes loc var
      let again ← newLabel
      let done ← newLabel
      let body ← optionalBlock ctx scopes body
      return fill ++ countCode e var bounds.1 bounds.2 again done body) fun fill => ?_
    refine Agrees.bind (agrees_look _) fun e => ?_
    refine Agrees.bind (agrees_aside _) fun again => Agrees.bind (agrees_aside _) fun done => ?_
    exact (agrees_optionalBlock body).bind fun _ => agrees_pure _
  | .ret _ value => by
    simp only [walkStatement, statement, returnCode]
    exact (agrees_expression value).bind_lift fun _ => agrees_pure _
  | .call loc callee args => by
    simp only [walkStatement, statement, call]
    exact (agrees_expression (.call loc callee args)).bind fun _ => agrees_pure _

theorem agrees_block :
    ∀ b : Block, Agrees Fault.stop (walkBlock ctx b) fun scopes => block ctx scopes b
  | .mk loc scope _ body => by
    simp only [walkBlock, block]
    exact agrees_scope fun fill => (agrees_statements body).bind fun _ => agrees_pure _

theorem agrees_optionalBlock : ∀ b : Option Block,
    Agrees Fault.stop (walkOptionalBlock ctx b) fun scopes => optionalBlock ctx scopes b
  | none => by
    simp only [walkOptionalBlock, optionalBlock]
    exact agrees_pure _
  | some b => by
    simp only [walkOptionalBlock, optionalBlock]
    exact agrees_block b

theorem agrees_statements : ∀ ss : List Stmt,
    Agrees Fault.stop (walkStatements ctx ss) fun scopes => statements ctx scopes ss
  | [] => by
    simp only [walkStatements, statements]
    exact agrees_pure _
  | s :: ss => by
    simp only [walkStatements, statements]
    exact (agrees_statement s).bind fun _ => (agrees_statements ss).bind fun _ => agrees_pure _

end

end

theorem agrees_function (abi : Abi) (f : RvBackend.Function) :
    Agrees Fault.stop (walkFunction abi f) fun scopes => lowerFunction abi scopes f := by
  unfold walkFunction lowerFunction
  refine Agrees.bind (agrees_aside _) fun _ => Agrees.bind (agrees_aside _) fun _ => ?_
  refine Agrees.bind (agrees_aside _) fun _ => agrees_scope (g := fun fill scopes => do
    let body ← optionalBlock ⟨abi, f.name⟩ scopes f.body
    finishFunction ⟨abi, f.name⟩ f.loc false (fill ++ body)) fun fill => ?_
  exact (agrees_optionalBlock f.body).bind fun _ => agrees_aside _

/-! ### Programs -/

theorem Agrees.atStage {α : Type} {x : Walking Fault α} {y : Scopes → Lowering α}
    (h : Agrees Fault.stop x y) (stage : Stage) :
    Agrees Failure.stop (walkAtStage stage x) fun scopes => Lower.atStage stage (y scopes) := by
  intro p c hc
  obtain ⟨c', hrestored, hout⟩ := h p c hc
  refine ⟨c', hrestored, ?_⟩
  have hwalk : outcome (walkAtStage stage x) ⟨p, c⟩ =
      ((outcome x ⟨p, c⟩).1.mapError (Stop.atStage stage), (outcome x ⟨p, c⟩).2) := rfl
  have hsteps : outcome (Lower.atStage stage (y c.scopes)) p =
      ((outcome (y c.scopes) p).1.mapError (Failure.mk stage), (outcome (y c.scopes) p).2) := rfl
  rw [hwalk, hsteps, hout]
  rcases outcome (y c.scopes) p with ⟨e | a, q⟩
  · cases e <;> rfl
  · rfl

theorem Agrees.under {ε α : Type} {stop : ε → Stop ε} {t : Option Table} {x : Walking ε α}
    {y : Scopes → ExceptT ε (StateM Progress) α} (h : Agrees stop x y) :
    Agrees stop (inScope t fun _ => x) fun scopes => y (scopes.enter t) := by
  refine agrees_inScope fun p c hc => ?_
  obtain ⟨c', hrestored, hout⟩ := h p (c.opened t) (hc.opened t)
  rw [Chain.scopes_opened hc] at hout
  exact ⟨t, c', hrestored, hout⟩

theorem atStage_bind {α β : Type} (stage : Stage) (x : Lowering α) (f : α → Lowering β) :
    atStage stage (x >>= f) = atStage stage x >>= fun a => atStage stage (f a) := by
  funext p
  show outcome (atStage stage (x >>= f)) p =
    outcome (atStage stage x >>= fun a => atStage stage (f a)) p
  have hstage : ∀ {γ : Type} (y : Lowering γ), outcome (atStage stage y) p =
      ((outcome y p).1.mapError (Failure.mk stage), (outcome y p).2) := fun _ => rfl
  rw [hstage, outcome_bind, outcome_bind, hstage]
  rcases outcome x p with ⟨e | a, q⟩ <;> rfl

/-- The steps that make the code of a program, once its names have been checked, among the visible
tables. -/
def storageAndCode (abi : Abi) (p : RvBackend.Program) (scopes : Scopes) :
    ExceptT Failure (StateM Progress) Asm.Program := do
  let (globals, constants) ← atStage .program do
    let (globals, constants) ← globalStorages p
    note "emitted global storage" [("variables", Text.decimal globals.length),
      ("constants", Text.decimal constants.length)]
    return (globals, constants)
  let functions ← p.functions.mapM fun f => atStage (.function f.name) (lowerFunction abi scopes f)
  let ctx : Context := ⟨abi, abi.entry⟩
  let body ← atStage (.entry abi.entry) do
    beginFunction
    optionalBlock ctx scopes p.body
  atStage .program do
    let entry ← finishFunction ctx p.loc true body
    let functions := functions ++ [entry]
    note "generation complete" [("functions", Text.decimal functions.length),
      ("labels", Text.decimal (← get).labels)]
    return { file := p.file, globals, constants, functions }

theorem programSteps_eq (abi : Abi) (p : RvBackend.Program) :
    programSteps abi p = atStage .program (checkNames abi p) >>= fun _ =>
      storageAndCode abi p (Scopes.enter [] p.scope) := by
  unfold programSteps storageAndCode
  rw [atStage_bind, bind_assoc]

theorem agrees_program (abi : Abi) (p : RvBackend.Program) :
    Agrees Failure.stop (walkProgram abi p) fun scopes =>
      atStage .program (checkNames abi p) >>= fun _ =>
      storageAndCode abi p (scopes.enter p.scope) := by
  unfold walkProgram
  refine Agrees.bind (agrees_aside _) fun _ => Agrees.under (y := storageAndCode abi p) ?_
  unfold storageAndCode
  refine Agrees.bind (agrees_aside _) fun storages => ?_
  refine Agrees.bind (agrees_mapM (fun f => (agrees_function abi f).atStage _) p.functions)
    fun functions => ?_
  refine Agrees.bind
    (Agrees.atStage (Agrees.bind (agrees_aside _) fun _ => agrees_optionalBlock p.body) _)
    fun body => ?_
  exact agrees_aside _

/-! ### Programs that were read -/

/-- A fault that is told is no crash. -/
theorem stop_of_told {f : Failure} (h : f.fault.Told) : Failure.stop f = .fault f := by
  obtain ⟨stage, fault⟩ := f
  cases fault with
  | valueless name => cases h
  | _ => rfl

theorem formed_empty : ({} : Chain).Formed := fun _ h => absurd h List.not_mem_nil

/-- **Generation ends with code or a fault, and closes each scope that it opens.** A program that
was read has no expression that is missing and no constant without a value; along a chain, its
generation comes to what it comes to without one, which is code or a fault and never a crash, and no
scope is open at the end. Each function, block, statement and expression leaves the chain as it was,
whatever it comes to. -/
theorem generation_balanced {bytes : List UInt8} {p : RvBackend.Program}
    (hp : RvBackend.Program.decode bytes = .ok p) (abi : Abi) :
    p.Decoded ∧
    (∃ w : Walk, w.chain.frames = [] ∧
      outcome (walkProgram abi p) ⟨{}, {}⟩ = ((lowerProgram abi p).code.mapError Stop.fault, w)) ∧
    (∀ f, Agrees Fault.stop (walkFunction abi f) fun scopes => lowerFunction abi scopes f) ∧
    (∀ ctx b, Agrees Fault.stop (walkBlock ctx b) fun scopes => block ctx scopes b) ∧
    (∀ ctx s, Agrees Fault.stop (walkStatement ctx s) fun scopes => statement ctx scopes s) ∧
    ∀ e, Agrees Fault.stop (walkExpression abi e) fun scopes =>
      liftM (expression abi scopes e) := by
  have hdecoded := decoded_of_decode hp
  refine ⟨hdecoded, ?_, agrees_function abi, fun ctx => agrees_block, fun ctx => agrees_statement,
    agrees_expression⟩
  obtain ⟨c, hrestored, hout⟩ := agrees_program abi p {} {} formed_empty
  refine ⟨⟨(outcome (programSteps abi p) {}).2, c⟩, hrestored.frames, hout.trans ?_⟩
  have hcode : (outcome (programSteps abi p) {}).1 = (lowerProgram abi p).code := rfl
  have hempty : ({} : Chain).scopes = [] := rfl
  simp only [hempty]
  rw [← programSteps_eq, hcode]
  cases hresult : (lowerProgram abi p).code with
  | ok code => rfl
  | error f =>
    show (Except.error (Failure.stop f), _) = (Except.error (Stop.fault f), _)
    rw [stop_of_told (told_of_decoded hdecoded hresult)]

/-- A program with a block in which a name is not declared. -/
def undeclared : List UInt8 :=
  ("\x7b\"kind\":\"Program\",\"body\":\x7b\"kind\":\"CompoundStatement\",\"statements\":[" ++
    "\x7b\"kind\":\"CompoundStatement\",\"scope\":[],\"statements\":[\x7b\"kind\":\"Return\"," ++
    "\"value\":\x7b\"kind\":\"VariableRef\",\"name\":\"j\"\x7d\x7d]\x7d]\x7d\x7d").toUTF8.toList

/-- The fault is told out of three scopes, and none of them stays open. -/
theorem undeclared_balanced : ∃ p, RvBackend.Program.decode undeclared = .ok p ∧
    (lowerProgram {} p).code.isOk = false ∧ ∃ w : Walk, w.chain.frames = [] ∧
      outcome (walkProgram {} p) ⟨{}, {}⟩ = ((lowerProgram {} p).code.mapError Stop.fault, w) := by
  have hany : (RvBackend.Program.decode undeclared).toOption.any
      (fun p => !(lowerProgram {} p).code.isOk) = true := by
    decide +kernel
  cases hdecode : RvBackend.Program.decode undeclared with
  | error e => rw [hdecode] at hany; cases hany
  | ok p =>
    rw [hdecode] at hany
    have hfails : (!(lowerProgram {} p).code.isOk) = true := hany
    exact ⟨p, rfl, by simpa using hfails, (generation_balanced hdecode {}).2.1⟩

end RvBackend.Lower
