import RvBackend.Proofs.Lower.FrameLayout
import RvBackend.Proofs.Tree.Unslotted

/-! # Generation does not depend on what earlier ones have left in the tree

A generation writes slots into the tables of the tree, and one that stops writes only some of them,
so the next generation finds a tree with any slots in it. It gives each local entry a slot of its
own before code looks at the entry, so that what it finds does not matter.

* `statement_unslotted` and its companions: the steps for a construct are the same without the old
  slots.
* `lowerProgram_unslotted`: so is the whole generation, with its failure, its slots and its log.
* `generation_independent_of_history`: a generation after any others is the same as one on the fresh
  tree. -/

namespace RvBackend.Lower

open Asm

/-! ### The steps for a tree without slots -/

theorem installEntries_unslotted (abi : Abi) (loc : Location) : ∀ (params : ℕ) (es : List Entry),
    installEntries abi loc params (es.map Entry.unslotted) = installEntries abi loc params es
  | _, [] => rfl
  | params, e :: es => by
    have hrest := fun params => installEntries_unslotted abi loc params es
    simp only [List.map_cons, installEntries, hrest]
    rfl

theorem install_unslotted (ctx : Context) (loc : Location) : ∀ scope : Option Table,
    install ctx loc (unslottedScope scope) = install ctx loc scope
  | none => rfl
  | some t => by
    have hentries := installEntries_unslotted ctx.abi loc 0 t.entries
    simp only [unslottedScope, Option.map_some, install, hentries]

mutual

theorem statement_unslotted (ctx : Context) : ∀ (s : Stmt) (scopes : Scopes),
    statement ctx scopes s.unslotted = statement ctx scopes s
  | .block b, scopes => by
    rw [Stmt.unslotted, statement, statement]
    exact block_unslotted ctx b scopes
  | .branch loc condition yes no, scopes => by
    have hyes := optionalBlock_unslotted ctx yes scopes
    have hno := optionalBlock_unslotted ctx no scopes
    simp only [Stmt.unslotted, statement, hyes, hno]
  | .loop loc condition body, scopes => by
    have hbody := optionalBlock_unslotted ctx body scopes
    simp only [Stmt.unslotted, statement, hbody]
  | .count loc scope var lower upper body, scopes => by
    have hbody := optionalBlock_unslotted ctx body
    simp only [Stmt.unslotted, statement, install_unslotted, hbody]
  | .print .., _ => rfl
  | .read .., _ => rfl
  | .assign .., _ => rfl
  | .ret .., _ => rfl
  | .call .., _ => rfl

theorem block_unslotted (ctx : Context) : ∀ (b : Block) (scopes : Scopes),
    block ctx scopes b.unslotted = block ctx scopes b
  | .mk loc scope decls body, scopes => by
    have hbody := statements_unslotted ctx body
    simp only [Block.unslotted, block, install_unslotted, hbody]

theorem optionalBlock_unslotted (ctx : Context) : ∀ (b : Option Block) (scopes : Scopes),
    optionalBlock ctx scopes (unslottedBlock b) = optionalBlock ctx scopes b
  | none, _ => rfl
  | some b, scopes => block_unslotted ctx b scopes

theorem statements_unslotted (ctx : Context) : ∀ (ss : List Stmt) (scopes : Scopes),
    statements ctx scopes (unslottedStatements ss) = statements ctx scopes ss
  | [], _ => rfl
  | s :: ss, scopes => by
    have hs := statement_unslotted ctx s scopes
    have hss := statements_unslotted ctx ss scopes
    simp only [unslottedStatements, statements, hs, hss]

end

theorem checkParameters_unslotted (abi : Abi) (f : RvBackend.Function) :
    checkParameters abi f.unslotted = checkParameters abi f := by
  have hentries : (Table.entriesOf (unslottedScope f.scope)).countP (·.kind = .parameter) =
      (Table.entriesOf f.scope).countP (·.kind = .parameter) := by
    cases f.scope with
    | none => rfl
    | some t => exact List.countP_map
  simp only [checkParameters, Function.unslotted, hentries]

theorem lowerFunction_unslotted (abi : Abi) (globals : Scopes) (f : RvBackend.Function) :
    lowerFunction abi globals f.unslotted = lowerFunction abi globals f := by
  have hbody := optionalBlock_unslotted ⟨abi, f.name⟩ f.body
  simp only [lowerFunction, checkParameters_unslotted]
  simp only [Function.unslotted, install_unslotted, hbody]

theorem checkNames_unslotted (abi : Abi) (p : RvBackend.Program) :
    checkNames abi p.unslotted = checkNames abi p := by
  have hnames : (p.functions.map Function.unslotted).forM (checkFunctionName abi) =
      p.functions.forM (checkFunctionName abi) := by
    induction p.functions with
    | nil => rfl
    | cons f fs ih =>
      rw [List.map_cons, List.forM, List.forM, ih]
      rfl
  simp only [checkNames, Program.unslotted, hnames]

/-- **A generation does not look at the slots that it finds in the tree.** -/
theorem lowerProgram_unslotted (abi : Abi) (p : RvBackend.Program) :
    lowerProgram abi p.unslotted = lowerProgram abi p := by
  have hfunctions : ∀ globals, (p.functions.map Function.unslotted).mapM
      (fun f => atStage (.function f.name) (lowerFunction abi globals f)) =
      p.functions.mapM fun f => atStage (.function f.name) (lowerFunction abi globals f) := by
    intro globals
    induction p.functions with
    | nil => rfl
    | cons f fs ih =>
      simp only [List.map_cons, List.mapM_cons, ih, lowerFunction_unslotted]
      rfl
  have hbody := optionalBlock_unslotted ⟨abi, abi.entry⟩ p.body
  have hsteps : programSteps abi p.unslotted = programSteps abi p := by
    simp only [programSteps, checkNames_unslotted]
    simp only [Program.unslotted, hfunctions, hbody]
    rfl
  rw [lowerProgram, lowerProgram, hsteps]

/-! ### Generations one after the other -/

/-- The tree after a generation, which has written its slots into the tables. -/
def treeAfter (p : RvBackend.Program) (abi : Abi) : RvBackend.Program :=
  p.withSlots (lowerProgram abi p).slots

/-- The code is made with one slot for each entry. -/
theorem length_slots_of_code {abi : Abi} {p : RvBackend.Program} {code : Asm.Program}
    (h : (lowerProgram abi p).code = .ok code) : (lowerProgram abi p).slots.length =
      (p.functions.flatMap Function.entries).length + (blockEntries p.body).length := by
  obtain ⟨q, hlow, hslots⟩ := loweredProgram_of_code h
  have hgiven : q.slots.toList = (routines abi p).flatMap (functionSlots abi) :=
    hlow.functions.slots
  have hlength : ∀ fs : List RvBackend.Function,
      (fs.flatMap (functionSlots abi)).length = (fs.flatMap Function.entries).length := by
    intro fs
    simp only [List.length_flatMap, length_functionSlots]
  rw [hslots, hgiven, hlength, routines, List.flatMap_append, List.length_append]
  simp [mainFunction, Function.entries, Table.entriesOf]

section

variable {abi : Abi} {p q : RvBackend.Program}

theorem lowerProgram_eq_of_unslotted (h : p.unslotted = q.unslotted) :
    lowerProgram abi q = lowerProgram abi p := by
  rw [← lowerProgram_unslotted abi q, ← h, lowerProgram_unslotted]

/-- The slots that a generation leaves are all its own. -/
theorem treeAfter_eq_of_unslotted (h : p.unslotted = q.unslotted) {code : Asm.Program}
    (hcode : (lowerProgram abi p).code = .ok code) : treeAfter q abi = treeAfter p abi := by
  have hsame : lowerProgram abi q = lowerProgram abi p := lowerProgram_eq_of_unslotted h
  have hp := withSlots_unslotted (length_slots_of_code hcode)
  have hq := withSlots_unslotted (p := q) (length_slots_of_code (hsame ▸ hcode))
  rw [treeAfter, treeAfter, ← hp, ← hq, h, hsame]

/-- Generations leave a tree that differs from the fresh one at most in its slots. -/
theorem unslotted_foldl_treeAfter : ∀ (history : List Abi) (p : RvBackend.Program),
    (history.foldl treeAfter p).unslotted = p.unslotted
  | [], _ => rfl
  | abi :: history, p => by
    rw [List.foldl_cons, unslotted_foldl_treeAfter history, treeAfter, unslotted_withSlots]

end

/-- **A generation after any others is the same as one on the fresh tree**: the same code or the
same failure, and, if there is code, the same slots left in the tree. The same holds for any two
trees that differ only in the slots of their local entries. -/
theorem generation_independent_of_history (abi : Abi) (p : RvBackend.Program) :
    (∀ history : List Abi,
      lowerProgram abi (history.foldl treeAfter p) = lowerProgram abi p ∧
      ∀ code, (lowerProgram abi p).code = .ok code →
        treeAfter (history.foldl treeAfter p) abi = treeAfter p abi) ∧
    ∀ q, p.unslotted = q.unslotted →
      lowerProgram abi q = lowerProgram abi p ∧
      ∀ code, (lowerProgram abi p).code = .ok code → treeAfter q abi = treeAfter p abi := by
  have halike : ∀ q : RvBackend.Program, p.unslotted = q.unslotted →
      lowerProgram abi q = lowerProgram abi p ∧
      ∀ code, (lowerProgram abi p).code = .ok code → treeAfter q abi = treeAfter p abi :=
    fun q h => ⟨lowerProgram_eq_of_unslotted h, fun _ hcode => treeAfter_eq_of_unslotted h hcode⟩
  exact ⟨fun history => halike _ (unslotted_foldl_treeAfter history p).symm, halike⟩

/-- Slots that are too large for a frame: the generation stops behind the first function of
`nested`, which has been given its two slots. -/
def largeSlots : Abi := { slotSize := 4096 }

theorem nested_generation_independent :
    (lowerProgram largeSlots nested).slots = [-4104, -8200] ∧
    (lowerProgram largeSlots nested).code.isOk = false ∧
    (lowerProgram {} nested).slots = [-12, -16, -12, -16] ∧
    lowerProgram {} ([wideSlots.abi, largeSlots].foldl treeAfter nested) = lowerProgram {} nested ∧
    treeAfter ([wideSlots.abi, largeSlots].foldl treeAfter nested) {} = treeAfter nested {} ∧
    treeAfter (treeAfter nested largeSlots) {} = treeAfter nested {} := by
  obtain ⟨code, hcode⟩ := exists_ok_of_isOk (x := (lowerProgram {} nested).code) (by decide +kernel)
  obtain ⟨hhistory, halike⟩ := generation_independent_of_history {} nested
  have hsame : nested.unslotted = (treeAfter nested largeSlots).unslotted :=
    (unslotted_withSlots nested _).symm
  refine ⟨by decide +kernel, by decide +kernel, by decide +kernel, ?_⟩
  exact ⟨(hhistory _).1, (hhistory _).2 code hcode, (halike _ hsame).2 code hcode⟩

end RvBackend.Lower
