import RvBackend.Proofs.Asm.Printing
import RvBackend.Proofs.Lower.Acceptance
import RvBackend.Proofs.Lower.Closure
import RvBackend.Proofs.Lower.Faults

/-! # Operands that name something

Code can be printed if each of its operands names something. The names of registers come from the
settings, those of callees and of global entries from the tree, and neither of them is looked at
before code is made. So whether the code of a program can be printed is a question about the names
at those places of the program that come to operands.

* `Program.spelled` answers it without making code.
* `made_statement_prints` and its companions: the code of a construct can be printed if its names
  are there.
* `emission_answers_iff`: when emission ends with a text or an error. -/

namespace RvBackend

/-! ### Names that come to operands -/

/-- The registers of that many arguments have names. -/
def Abi.spells (abi : Abi) (count : ℕ) : Bool := "" ∉ abi.registers.take count

/-- The address of what a name stands for can be written down. Only a global entry is addressed by
its name. -/
def Scopes.spells (scopes : Scopes) (name : String) : Bool :=
  name ≠ "" || (scopes.find? name).all (!·.isGlobal)

/-- The registers of the parameters in a scope have names. -/
def scopeSpelled (abi : Abi) (scope : Option Table) : Bool :=
  abi.spells ((Table.entriesOf scope).countP (·.kind = .parameter))

mutual

/-- The names in an expression are there. -/
def Expr.spelled (abi : Abi) (scopes : Scopes) : Expr → Bool
  | .missing => true
  | .constant _ => true
  | .variable r => scopes.spells r.name
  | .binary _ _ left right => left.spelled abi scopes && right.spelled abi scopes
  | .unary _ _ operand => operand.spelled abi scopes
  | .call _ callee args => callee ≠ "" && abi.spells args.length && argumentsSpelled abi scopes args

/-- The names in arguments are there. -/
def argumentsSpelled (abi : Abi) (scopes : Scopes) : List Expr → Bool
  | [] => true
  | e :: es => e.spelled abi scopes && argumentsSpelled abi scopes es

end

mutual

/-- The names in a statement are there. -/
def Stmt.spelled (abi : Abi) (scopes : Scopes) : Stmt → Bool
  | .block b => b.spelled abi scopes
  | .print _ target => target.spelled abi scopes
  | .read _ target => scopes.spells target.name
  | .assign _ target value => scopes.spells target.name && value.spelled abi scopes
  | .branch _ condition yes no =>
    condition.spelled abi scopes && (blockSpelled abi scopes yes && blockSpelled abi scopes no)
  | .loop _ condition body => condition.spelled abi scopes && blockSpelled abi scopes body
  | .count _ scope var _ _ body =>
    scopeSpelled abi scope &&
      ((scopes.enter scope).spells var && blockSpelled abi (scopes.enter scope) body)
  | .ret _ value => value.spelled abi scopes
  | .call loc callee args => (Expr.call loc callee args).spelled abi scopes

/-- The names in a block are there. -/
def Block.spelled (abi : Abi) (scopes : Scopes) : Block → Bool
  | .mk _ scope _ statements => scopeSpelled abi scope && statementsSpelled abi (scopes.enter scope)
      statements

/-- The names in a block that may be missing are there. -/
def blockSpelled (abi : Abi) (scopes : Scopes) : Option Block → Bool
  | none => true
  | some b => b.spelled abi scopes

/-- The names in statements are there. -/
def statementsSpelled (abi : Abi) (scopes : Scopes) : List Stmt → Bool
  | [] => true
  | s :: ss => s.spelled abi scopes && statementsSpelled abi scopes ss

end

/-- The names in a function are there. -/
def Function.spelled (abi : Abi) (globals : Scopes) (f : Function) : Bool :=
  scopeSpelled abi f.scope && blockSpelled abi (globals.enter f.scope) f.body

/-- The names in a program are there. -/
def Program.spelled (abi : Abi) (p : Program) : Bool :=
  p.functions.all (Function.spelled abi (Scopes.enter [] p.scope)) &&
    blockSpelled abi (Scopes.enter [] p.scope) p.body

/-! ### Scopes up to their slots -/

/-- The scopes without slots. -/
def Scopes.unslotted (scopes : Scopes) : Scopes :=
  scopes.map fun t => ⟨t.entries.map Entry.unslotted⟩

theorem Scopes.find?_unslotted (name : String) : ∀ scopes : Scopes,
    scopes.unslotted.find? name = (scopes.find? name).map Entry.unslotted
  | [] => rfl
  | t :: scopes => by
    have htable : Table.find? ⟨t.entries.map Entry.unslotted⟩ name =
        (t.find? name).map Entry.unslotted := by
      unfold Table.find?
      rw [← List.map_reverse, List.find?_map]
      rfl
    have ih := Scopes.find?_unslotted name scopes
    unfold Scopes.find? Scopes.unslotted at ih ⊢
    rw [List.map_cons, List.findSome?_cons, List.findSome?_cons, htable, ih]
    cases t.find? name <;> rfl

theorem Scopes.spells_unslotted (scopes : Scopes) (name : String) :
    scopes.unslotted.spells name = scopes.spells name := by
  rw [Scopes.spells, Scopes.spells, Scopes.find?_unslotted]
  cases scopes.find? name <;> rfl

theorem Scopes.enter_unslotted (scopes : Scopes) (t : Option Table) :
    (scopes.enter t).unslotted = scopes.unslotted.enter (unslottedScope t) := by
  cases t <;> rfl

namespace Lower

open Asm

/-! ### Code that can be printed -/

@[simp] theorem isSome_reg {name : String} :
    (Operand.reg name).text?.isSome = true ↔ name ≠ "" := by
  simp [Operand.text?]

@[simp] theorem isSome_mem {offset : Int64} {base : String} :
    (Operand.mem offset base).text?.isSome = true ↔ base ≠ "" := by
  simp [Operand.text?]

@[simp] theorem isSome_label {name : String} :
    (Operand.label name).text?.isSome = true ↔ name ≠ "" := by
  simp [Operand.text?]

@[simp] theorem isSome_imm (n : Int64) : (Operand.imm n).text?.isSome = true := rfl

/-- Each operand in code names something. -/
def Prints (code : List Line) : Prop := ∀ op ∈ opsOf code, ∀ o ∈ op.2, o.text?.isSome = true

@[simp] theorem prints_nil : Prints [] := fun _ h => absurd h List.not_mem_nil

@[simp] theorem prints_append {code code' : List Line} :
    Prints (code ++ code') ↔ Prints code ∧ Prints code' := by
  unfold Prints
  rw [opsOf_append, List.forall_mem_append]

@[simp] theorem prints_op {mnemonic : String} {operands : List Operand} {code : List Line} :
    Prints (.op mnemonic operands :: code) ↔ (∀ o ∈ operands, o.text?.isSome = true) ∧
      Prints code :=
  List.forall_mem_cons

@[simp] theorem prints_remark {text : String} {code : List Line} :
    Prints (.remark text :: code) ↔ Prints code :=
  Iff.rfl

@[simp] theorem prints_label {name : String} {code : List Line} :
    Prints (.label name :: code) ↔ Prints code := Iff.rfl

theorem isSome_bind_pure {α β : Type} (x : Option α) (f : α → β) :
    (x >>= fun a => pure (f a)).isSome = x.isSome := by
  cases x <;> rfl

theorem isSome_mapM {α β : Type} {f : α → Option β} : ∀ {xs : List α},
    (xs.mapM f).isSome = true ↔ ∀ x ∈ xs, (f x).isSome = true
  | [] => by simp
  | x :: xs => by
    rw [List.forall_mem_cons, ← isSome_mapM, List.mapM_cons]
    cases f x <;> cases xs.mapM f <;> simp

theorem isSome_operandsText {operands : List Operand} :
    (Line.operandsText? operands).isSome = true ↔ ∀ o ∈ operands, o.text?.isSome = true := by
  rw [← isSome_mapM]
  cases operands with
  | nil => exact iff_of_true rfl rfl
  | cons o os =>
    unfold Line.operandsText?
    rw [isSome_bind_pure]

theorem isSome_lineText {l : Line} : l.text?.isSome = true ↔ Prints [l] := by
  obtain ⟨content, comment⟩ := l
  cases content with
  | blank => exact iff_of_true rfl prints_nil
  | label name => exact iff_of_true rfl prints_nil
  | op mnemonic operands =>
    have hprints : Prints [⟨.op mnemonic operands, comment⟩] ↔
        ∀ o ∈ operands, o.text?.isSome = true :=
      prints_op.trans (and_iff_left prints_nil)
    rw [hprints, ← isSome_operandsText]
    unfold Line.text?
    rw [isSome_bind_pure]

theorem prints_iff_lines : ∀ {code : List Line}, Prints code ↔ ∀ l ∈ code, l.text?.isSome = true
  | [] => iff_of_true prints_nil fun _ h => absurd h List.not_mem_nil
  | l :: code => by
    rw [List.forall_mem_cons, isSome_lineText, ← prints_iff_lines]
    exact @prints_append [l] code

/-- A program can be printed if the lines of its functions can. -/
theorem isSome_programText {code : Asm.Program} :
    code.text?.isSome = true ↔ ∀ g ∈ code.functions, Prints g.lines := by
  have hfunction : ∀ g : Asm.Function, g.text?.isSome = true ↔ Prints g.lines := by
    intro g
    rw [prints_iff_lines, ← isSome_mapM]
    unfold Asm.Function.text?
    simp only [isSome_bind_pure]
  unfold Asm.Program.text?
  rw [isSome_bind_pure, isSome_mapM]
  exact forall₂_congr fun g _ => hfunction g

@[simp] theorem prints_push {r : Operand} : Prints (push r) ↔ r.text?.isSome = true := by
  simp [push, sp]

@[simp] theorem prints_pop {r : Operand} : Prints (pop r) ↔ r.text?.isSome = true := by
  simp [pop, sp]

@[simp] theorem isSome_t0 : t0.text?.isSome = true := rfl

@[simp] theorem isSome_t1 : t1.text?.isSome = true := rfl

@[simp] theorem isSome_a0 : a0.text?.isSome = true := rfl

@[simp] theorem isSome_s0 : s0.text?.isSome = true := rfl

@[simp] theorem isSome_sp : sp.text?.isSome = true := rfl

@[simp] theorem isSome_ra : ra.text?.isSome = true := rfl

theorem prints_operation {loc : Location} {op : Operator} {code : List Line}
    (h : operation loc op = .ok code) :
    Prints code := by
  have hcomparison : Prints (comparison op) := by
    unfold comparison
    split <;> simp
  cases op with
  | plus | minus | times | divide | mod | and | or =>
    cases h
    simp
  | less | lessOrEqual | greater | greaterOrEqual | equal | notEqual =>
    cases h
    simpa using hcomparison
  | not | neg | other => cases h

theorem prints_unaryOperation {loc : Location} {op : Operator} {code : List Line}
    (h : unaryOperation loc op = .ok code) : Prints code := by
  cases op with
  | neg | minus | not =>
    cases h
    simp
  | _ => cases h

theorem prints_transfer {abi : Abi} {callee : String} {count : ℕ} :
    Prints (transfer abi callee count) ↔ callee ≠ "" ∧ abi.spells count = true := by
  have hpops : ∀ rs : List String, Prints (rs.flatMap fun r => pop (.reg r)) ↔ "" ∉ rs := by
    intro rs
    induction rs with
    | nil => exact iff_of_true prints_nil List.not_mem_nil
    | cons r rs ih => rw [List.flatMap_cons, prints_append, prints_pop, isSome_reg, ih,
        List.mem_cons, not_or, ne_comm]
  have hjump : Prints [.op "jal" [ra, .label callee]] ↔ callee ≠ "" := by simp
  unfold transfer
  rw [prints_append, prints_append, hpops, hjump, List.mem_reverse, Abi.spells, decide_eq_true_iff]
  exact ⟨fun h => ⟨h.1.2, h.1.1⟩, fun h => ⟨⟨h.2, h.1⟩, by simp⟩⟩

section

variable {abi : Abi} {scopes scopes' : Scopes}

theorem prints_loadAddress {loc : Location} {name : String} {e : Entry}
    (hscopes : scopes'.unslotted = scopes.unslotted) (h : resolve scopes' loc name = .ok e) :
    Prints (loadAddress t0 e) ↔ scopes.spells name = true := by
  obtain ⟨hfind, -⟩ := resolve_eq_ok h
  obtain ⟨hname, -⟩ := find?_mem hfind
  rw [← Scopes.spells_unslotted, ← hscopes, Scopes.spells_unslotted, Scopes.spells, hfind]
  unfold loadAddress
  split
  · next hglobal => simp [hglobal, hname]
  · next hglobal => simp [hglobal]

mutual

theorem expression_prints (hscopes : scopes'.unslotted = scopes.unslotted) :
    ∀ {e : Expr} {code : List Line},
    expression abi scopes' e = .ok code → (Prints code ↔ e.spelled abi scopes = true)
  | .missing, _, h => by simp [expression] at h
  | .constant c, _, h => by
    obtain ⟨n, -, rfl⟩ := literal_eq_ok h
    simp [Expr.spelled]
  | .variable r, _, h => by
    obtain ⟨e, he, rfl⟩ := load_eq_ok h
    simp [Expr.spelled, prints_loadAddress hscopes he]
  | .binary loc op left right, _, h => by
    obtain ⟨lc, rc, oc, hl, hr, ho, rfl⟩ := expression_binary h
    simp [Expr.spelled, expression_prints hscopes hl, expression_prints hscopes hr,
      prints_operation ho]
  | .unary loc op operand, _, h => by
    obtain ⟨c, oc, he, ho, rfl⟩ := expression_unary h
    simp [Expr.spelled, expression_prints hscopes he, prints_unaryOperation ho]
  | .call loc callee args, _, h => by
    obtain ⟨c, -, hargs, rfl⟩ := expression_call h
    rw [prints_append, arguments_prints hscopes hargs, prints_transfer, Expr.spelled]
    simp [and_comm]

theorem arguments_prints (hscopes : scopes'.unslotted = scopes.unslotted) {callee : String} :
    ∀ {es : List Expr} {i : ℕ} {code : List Line}, arguments abi scopes' callee i es = .ok code →
    (Prints code ↔ argumentsSpelled abi scopes es = true)
  | [], _, _, h => by
    rw [arguments] at h
    cases h
    exact iff_of_true prints_nil rfl
  | e :: es, i, _, h => by
    obtain ⟨c, rest, he, hes, rfl⟩ := arguments_cons h
    simp [argumentsSpelled, expression_prints hscopes he, arguments_prints hscopes hes]

end

/-! ### Scopes and statements -/

theorem prints_installEntries {loc : Location} :
    ∀ {es es' : List Entry} {params : ℕ} {code : List Line} {p q : Progress},
    Made (installEntries abi loc params es) p (es', code) q →
    (Prints code ↔ "" ∉ (abi.registers.drop params).take (es.countP (·.kind = .parameter)))
  | [], _, _, _, _, _, h => by
    obtain ⟨-, rfl, -⟩ := made_installEntries_nil h
    exact iff_of_true prints_nil (by simp)
  | e :: es, _, params, _, _, _, h => by
    obtain ⟨-, fill, rest, es'', hfill, hrest, -, rfl⟩ := made_installEntries_cons h
    rw [prints_append, prints_installEntries hrest]
    rcases fillSlot_eq_ok hfill with ⟨hkind, _, _, -, -, rfl⟩ | ⟨hkind, r, hr, rfl⟩ | ⟨-, hkind,
      rfl⟩
    · have hother : e.kind ≠ .parameter := fun h => absurd (hkind.symm.trans h) (by decide)
      simp [hother]
    · -- the parameter takes the next register
      have hparameter : e.kind = .parameter := hkind
      have hstore : ∀ (text : String) (offset : Int64),
          Prints [.remark text, .op "sw" [.reg r, .mem offset "s0"]] ↔ r ≠ "" := by simp
      rw [hstore, ne_comm]
      obtain ⟨hlt, rfl⟩ := List.getElem?_eq_some_iff.mp hr
      rw [if_pos hparameter, List.countP_cons_of_pos (by simpa using hparameter),
        List.drop_eq_getElem_cons hlt, List.take_succ_cons, List.mem_cons, not_or]
    · have hother : e.kind ≠ .parameter := hkind
      simp [hother]

theorem prints_install {ctx : Context} {loc : Location} {t t' : Option Table} {code : List Line}
    {p q : Progress} (h : Made (install ctx loc t) p (t', code) q) :
    Prints code ↔ scopeSpelled ctx.abi t = true := by
  cases t with
  | none =>
    obtain ⟨-, rfl, -⟩ := made_install_none h
    exact iff_of_true prints_nil (by simp [scopeSpelled, Abi.spells, Table.entriesOf])
  | some t =>
    obtain ⟨es, q', log, -, hes, -⟩ := made_install_some h
    rw [prints_installEntries hes, List.drop_zero, scopeSpelled, Abi.spells, decide_eq_true_iff]
    rfl

theorem unslotted_enter {ctx : Context} {loc : Location} {t t' : Option Table} {code : List Line}
    {p q : Progress} (hscopes : scopes'.unslotted = scopes.unslotted)
    (h : Made (install ctx loc t) p (t', code) q) :
    Scopes.unslotted (scopes'.enter t') = Scopes.unslotted (scopes.enter t) := by
  rw [Scopes.enter_unslotted, Scopes.enter_unslotted, hscopes, unslottedScope_install h]

end

theorem prints_countCode {e : Entry} {var a b : String} {lo hi : Int64} {body : List Line}
    (ha : a ≠ "") (hb : b ≠ "") :
    Prints (countCode e var lo hi a b body) ↔ Prints (loadAddress t0 e) ∧ Prints body := by
  have hset : Prints [.op "li" [t1, .imm lo], .op "sw" [t1, .mem 0 "t0"], .label a] := by simp
  have htest : Prints [.op "lw" [t0, .mem 0 "t0"], .op "li" [t1, .imm hi],
      .op "beq" [t0, t1, .label b]] := by
    simp [hb]
  have hnext : Prints [.op "lw" [t1, .mem 0 "t0"], .op "addi" [t1, t1, .imm 1],
    .op "sw" [t1, .mem 0 "t0"],
      .op "j" [.label a], .label b] := by simp [ha]
  simp only [countCode, prints_append, prints_remark, prints_nil, hset, htest, hnext, true_and,
    and_true]
  tauto

section

variable {ctx : Context}

mutual

theorem made_statement_prints (hvalid : ctx.abi.Valid) :
    ∀ {s : Stmt} {scopes scopes' : Scopes} {code : List Line} {p q : Progress},
    Made (statement ctx scopes' s) p code q →
    scopes'.unslotted = scopes.unslotted →
    (Prints code ↔ s.spelled ctx.abi scopes = true)
  | .block b, _, _, _, _, _, h, hscopes => made_block_prints hvalid h hscopes
  | .print _ _, _, _, _, _, _, h, hscopes => by
    obtain ⟨c, hc, -, rfl⟩ := made_print h
    simp [Stmt.spelled, expression_prints hscopes hc, hvalid.printHelper]
  | .read _ _, _, _, _, _, _, h, hscopes => by
    obtain ⟨e, he, -, rfl⟩ := made_read h
    simp [Stmt.spelled, prints_loadAddress hscopes he, hvalid.readHelper]
  | .assign _ _ _, _, _, _, _, _, h, hscopes => by
    obtain ⟨e, c, he, hc, -, rfl⟩ := made_assign h
    simp [Stmt.spelled, prints_loadAddress hscopes he, expression_prints hscopes hc]
  | .branch _ _ yes no, _, _, _, _, _, h, hscopes => by
    obtain ⟨test, yesCode, noCode, p', p'', htest, -, hyes, hno, rfl⟩ := made_branch h
    simp [Stmt.spelled, expression_prints hscopes htest,
      made_optionalBlock_prints hvalid hyes hscopes, made_optionalBlock_prints hvalid hno hscopes]
  | .loop _ _ body, _, _, _, _, _, h, hscopes => by
    obtain ⟨test, bodyCode, p', htest, -, hbody, rfl⟩ := made_loop h
    simp [Stmt.spelled, expression_prints hscopes htest,
      made_optionalBlock_prints hvalid hbody hscopes]
  | .count _ scope _ _ _ body, _, _, _, _, _, h, hscopes => by
    obtain ⟨lo, hi, scope', fill, e, bodyCode, p', p'', -, hscope, he, -, hbody, rfl⟩ :=
      made_count h
    have henter := unslotted_enter hscopes hscope
    simp [Stmt.spelled, prints_countCode, prints_install hscope, prints_loadAddress henter he,
      made_optionalBlock_prints hvalid hbody henter]
  | .ret _ _, _, _, _, _, _, h, hscopes => by
    obtain ⟨c, hc, -, rfl⟩ := made_ret h
    simp [Stmt.spelled, expression_prints hscopes hc, Context.exitLabel]
  | .call _ _ _, _, _, _, _, _, h, hscopes => by
    obtain ⟨c, hc, -, rfl⟩ := made_call h
    simp [Stmt.spelled, expression_prints hscopes hc, discard]

theorem made_block_prints (hvalid : ctx.abi.Valid) :
    ∀ {b : Block} {scopes scopes' : Scopes} {code : List Line} {p q : Progress},
    Made (block ctx scopes' b) p code q → scopes'.unslotted = scopes.unslotted →
    (Prints code ↔ b.spelled ctx.abi scopes = true)
  | .mk _ _ _ _, _, _, _, _, _, h, hscopes => by
    obtain ⟨scope', fill, bodyCode, p', hscope, hbody, rfl⟩ := made_block h
    have henter := unslotted_enter hscopes hscope
    simp [Block.spelled, prints_install hscope, made_statements_prints hvalid hbody henter]

theorem made_optionalBlock_prints (hvalid : ctx.abi.Valid) :
    ∀ {b : Option Block} {scopes scopes' : Scopes} {code : List Line} {p q : Progress},
    Made (optionalBlock ctx scopes' b) p code q →
    scopes'.unslotted = scopes.unslotted → (Prints code ↔ blockSpelled ctx.abi scopes b = true)
  | none, _, _, _, _, _, h, _ => by
    obtain ⟨rfl, -⟩ := made_pure_iff.mp h
    exact iff_of_true prints_nil rfl
  | some b, _, _, _, _, _, h, hscopes => made_block_prints hvalid h hscopes

theorem made_statements_prints (hvalid : ctx.abi.Valid) :
    ∀ {ss : List Stmt} {scopes scopes' : Scopes} {code : List Line} {p q : Progress},
    Made (statements ctx scopes' ss) p code q →
    scopes'.unslotted = scopes.unslotted →
      (Prints code ↔ statementsSpelled ctx.abi scopes ss = true)
  | [], _, _, _, _, _, h, _ => by
    obtain ⟨rfl, -⟩ := made_pure_iff.mp h
    exact iff_of_true prints_nil rfl
  | s :: ss, _, _, _, _, _, h, hscopes => by
    obtain ⟨first, rest, p', hs, hss, rfl⟩ := made_statements_cons h
    simp [statementsSpelled, made_statement_prints hvalid hs hscopes,
      made_statements_prints hvalid hss hscopes]

end

end

/-! ### Functions and programs -/

theorem LoweredFunction.prints {abi : Abi} {globals : Scopes} {f : RvBackend.Function}
    {g : Asm.Function} {p q : Progress} (h : LoweredFunction abi globals f p g q)
    (hvalid : abi.Valid) :
    Prints g.lines ↔ f.spelled abi globals = true := by
  obtain ⟨scope, fill, body, size, log, log', p', p'', hscope, hbody, -, -, -, hlines⟩ := h
  have hframe : Prints g.lines ↔ Prints (fill ++ body) := by
    rw [hlines]
    simp [frameCode]
  have henter := unslotted_enter (Eq.refl globals.unslotted) hscope
  rw [hframe, prints_append, prints_install hscope, made_optionalBlock_prints hvalid hbody henter,
    Function.spelled, Bool.and_eq_true]

theorem LoweredAll.prints {abi : Abi} {globals : Scopes} {fs : List RvBackend.Function}
    {gs : List Asm.Function} {p q : Progress} (h : LoweredAll abi globals fs p gs q)
    (hvalid : abi.Valid) :
    (∀ g ∈ gs, Prints g.lines) ↔ ∀ f ∈ fs, f.spelled abi globals = true := by
  induction h with
  | nil =>
    exact iff_of_true (fun _ h => absurd h List.not_mem_nil) fun _ h => absurd h List.not_mem_nil
  | cons head _ ih => rw [List.forall_mem_cons, List.forall_mem_cons, head.prints hvalid, ih]

/-- **Generated code can be printed if the names in the program are there.** -/
theorem isSome_text_iff_spelled {abi : Abi} {p : RvBackend.Program} {code : Asm.Program}
    (hvalid : abi.Valid) (hcode : (lowerProgram abi p).code = .ok code) :
    code.text?.isSome = true ↔ p.spelled abi = true := by
  obtain ⟨q, hlow, -⟩ := loweredProgram_of_code hcode
  have hmain : (mainFunction abi p).spelled abi (Scopes.enter [] p.scope) =
      blockSpelled abi (Scopes.enter [] p.scope) p.body := by
    simp [Function.spelled, mainFunction, scopeSpelled, Abi.spells, Table.entriesOf, Scopes.enter]
  rw [isSome_programText, hlow.functions.prints hvalid, routines, List.forall_mem_append,
    List.forall_mem_singleton, hmain, Program.spelled, Bool.and_eq_true, List.all_eq_true]

/-! ### How emission ends -/

/-- What is an answer: a result, or an error that says what is wrong. That an operand names nothing
is not said of any place in the program. -/
def Answers {α : Type} : Except EmitError α → Prop
  | .ok _ => True
  | .error (.failure f) => f.fault.Told
  | .error .unprintable => False
  | .error .full => True

theorem answers_emit_iff {abi : Abi} {p : RvBackend.Program} {sink : Sink} :
    Answers (emit abi p sink).outcome ↔ Answers (codeText (lowerProgram abi p).code) := by
  cases hcode : (lowerProgram abi p).code with
  | error f =>
    simp only [emit, hcode]
    exact Iff.rfl
  | ok code =>
    simp only [emit, hcode, codeText, Except.mapError, bind, Except.bind]
    cases htext : code.text? with
    | none =>
      rw [code.printTo_of_none htext sink]
      exact Iff.rfl
    | some text =>
      rw [code.printTo_of_text htext sink]
      refine iff_of_true ?_ trivial
      cases (sink.write text).2 <;> exact trivial

theorem answers_of_code {abi : Abi} {p : RvBackend.Program} {code : Asm.Program}
    (hvalid : abi.Valid) (hcode : (lowerProgram abi p).code = .ok code) {sink : Sink} :
    Answers (emit abi p sink).outcome ↔ p.spelled abi = true := by
  rw [answers_emit_iff, ← isSome_text_iff_spelled hvalid hcode, hcode]
  simp only [codeText, Except.mapError, bind, Except.bind]
  cases code.text? with
  | none => exact iff_of_false id (by simp)
  | some text => exact iff_of_true trivial rfl

/-- **Emission ends with an answer unless code is made that has an operand without a name.** -/
theorem emission_answers_iff {s : Settings} {bytes : List UInt8} {p : RvBackend.Program}
    (hvalid : s.problems = []) (hdecode : RvBackend.Program.decode bytes = .ok p) (sink : Sink) :
    Answers (emit s.abi p sink).outcome ↔
      ((∃ code, (lowerProgram s.abi p).code = .ok code) → p.spelled s.abi = true) := by
  cases hcode : (lowerProgram s.abi p).code with
  | error f =>
    have htold := told_of_decoded (decoded_of_decode hdecode) hcode
    refine iff_of_true (answers_emit_iff.mpr ?_) fun h => ?_
    · rw [hcode]
      exact htold
    · obtain ⟨code, h⟩ := h
      cases h
  | ok code =>
    rw [answers_of_code (abi_valid hvalid) hcode]
    exact ⟨fun h _ => h, fun h => h ⟨code, rfl⟩⟩

theorem negation_answered : ∃ p, RvBackend.Program.decode negation = .ok p ∧ p.spelled {} = true ∧
    ∀ sink, Answers (emit {} p sink).outcome := by
  have hany : (RvBackend.Program.decode negation).toOption.any (Program.spelled {}) = true := by
    decide +kernel
  obtain ⟨p, hdecode, hspelled⟩ : ∃ p, RvBackend.Program.decode negation = .ok p ∧
      p.spelled {} = true := by
    cases h : RvBackend.Program.decode negation with
    | error e => rw [h] at hany; cases hany
    | ok p => rw [h] at hany; exact ⟨p, rfl, hany⟩
  exact ⟨p, hdecode, hspelled, fun sink =>
    (emission_answers_iff (s := {}) (by decide +kernel) hdecode sink).mpr fun _ => hspelled⟩

/-- The settings have no problem, the bytes are read and have their code, but emission does not end
with an answer. -/
def Unanswered (s : Settings) (bytes : List UInt8) : Prop :=
  s.problems = [] ∧ ∃ p code, RvBackend.Program.decode bytes = .ok p ∧
    (lowerProgram s.abi p).code = .ok code ∧ ∀ sink, ¬ Answers (emit s.abi p sink).outcome

theorem unanswered_of_not_spelled {s : Settings} {bytes : List UInt8} (hvalid : s.problems = [])
    (hany : (RvBackend.Program.decode bytes).toOption.any (fun p =>
      (lowerProgram s.abi p).code.isOk && !p.spelled s.abi) = true) : Unanswered s bytes := by
  obtain ⟨p, hdecode, htest⟩ := exists_ok_of_any hany
  obtain ⟨hok, hspelled⟩ := Bool.and_eq_true_iff.mp htest
  obtain ⟨code, hcode⟩ := exists_ok_of_isOk hok
  refine ⟨hvalid, p, code, hdecode, hcode, fun sink => ?_⟩
  rw [answers_of_code (abi_valid hvalid) hcode]
  simpa using hspelled

/-- A call without a name. -/
def namelessCall : List UInt8 :=
  ("\x7b\"kind\":\"Program\",\"body\":\x7b\"kind\":\"CompoundStatement\"," ++
    "\"statements\":[\x7b\"kind\":\"Invocation\"\x7d]\x7d\x7d").toUTF8.toList

/-- A function with one parameter, for which a register may have no name. -/
def oneParameter : List UInt8 :=
  ("\x7b\"kind\":\"Program\",\"functions\":[\x7b\"kind\":\"Function\",\"name\":\"f\",\"scope\":[" ++
    "\x7b\"name\":\"n\",\"kind\":\"parameter\",\"type\":\"integer\",\"level\":1\x7d" ++
    "]\x7d]\x7d").toUTF8.toList

/-- A global variable without a name that is read. -/
def namelessGlobal : List UInt8 :=
  ("\x7b\"kind\":\"Program\",\"scope\":[" ++
    "\x7b\"kind\":\"variable\",\"type\":\"integer\",\"level\":0\x7d]," ++
    "\"body\":\x7b\"kind\":\"CompoundStatement\",\"statements\":[\x7b\"kind\":\"Read\"," ++
    "\"target\":\x7b\"kind\":\"VariableRef\"\x7d\x7d]\x7d\x7d").toUTF8.toList

theorem unnamed_not_answered : Unanswered {} namelessCall ∧
    Unanswered { abi := { argRegisters := [""] } } oneParameter ∧ Unanswered {} namelessGlobal :=
  ⟨unanswered_of_not_spelled (by decide +kernel) (by decide +kernel),
    unanswered_of_not_spelled (by decide +kernel) (by decide +kernel),
    unanswered_of_not_spelled (by decide +kernel) (by decide +kernel)⟩

end Lower

end RvBackend
