import RvBackend.Lower.Program
import RvBackend.Proofs.Outcome

/-! # What steps of generation make

The steps of generation taken apart, one construct at a time.

* `made_installEntries_cons`, `made_install_some`: the entries of a scope.
* `made_branch`, `made_loop`, `made_count`, `made_block`: the statements with parts. -/

namespace RvBackend.Lower

open Asm

variable {ε α β : Type} {p q r : Progress}

/-! ### Slots, labels and records -/

theorem made_newSlot_iff {abi : Abi} {slot : Int64} : Made (newSlot abi) p slot q ↔
    slot = p.cursor - abi.slotSize ∧ q = { p with cursor := slot, slots := p.slots.push slot } := by
  unfold newSlot
  rw [made_modifyGet_iff, Prod.ext_iff]
  constructor
  · rintro ⟨rfl, rfl⟩; exact ⟨rfl, rfl⟩
  · rintro ⟨rfl, rfl⟩; exact ⟨rfl, rfl⟩

theorem made_newLabel_iff {label : String} : Made newLabel p label q ↔
    label = ".L" ++ Text.decimal (p.labels + 1) ∧ q = { p with labels := p.labels + 1 } := by
  unfold newLabel
  rw [made_modifyGet_iff, Prod.ext_iff]
  constructor
  · rintro ⟨rfl, rfl⟩; exact ⟨rfl, rfl⟩
  · rintro ⟨rfl, rfl⟩; exact ⟨rfl, rfl⟩

theorem made_note {message : String} {attrs : List (String × String)} {u : Unit}
    (h : Made (note message attrs) p u q) : ∃ log, q = { p with log } := by
  unfold note at h
  rw [made_modify_iff] at h
  exact ⟨_, h⟩

theorem exists_made_note (message : String) (attrs : List (String × String)) (p : Progress) :
    ∃ u q, Made (note message attrs) p u q ∧ q.cursor = p.cursor :=
  ⟨(), _, made_modify_iff.mpr rfl, rfl⟩

/-! ### Scopes -/

/-- An entry with its slot, if the slots given out so far go down to the cursor. -/
def place (abi : Abi) (cursor : Int64) (e : Entry) : Entry :=
  { e with slot := cursor - abi.slotSize }

theorem made_installEntries_nil {abi : Abi} {loc : Location} {params : Nat} {es : List Entry}
    {code : List Line} (h : Made (installEntries abi loc params []) p (es, code) q) :
    es = [] ∧ code = [] ∧ q = p := by
  simp only [installEntries, made_pure_iff, Prod.mk.injEq] at h
  obtain ⟨⟨rfl, rfl⟩, rfl⟩ := h
  exact ⟨rfl, rfl, rfl⟩

theorem made_installEntries_cons {abi : Abi} {loc : Location} {params : Nat} {e : Entry}
    {es es' : List Entry} {code : List Line}
    (h : Made (installEntries abi loc params (e :: es)) p (es', code) q) :
    e.type.isScalar ∧ ∃ fill rest es'',
      fillSlot abi loc params (place abi p.cursor e) = .ok fill ∧
      Made (installEntries abi loc (if e.kind = .parameter then params + 1 else params) es)
        { p with cursor := p.cursor - abi.slotSize,
                 slots := p.slots.push (p.cursor - abi.slotSize) } (es'', rest) q ∧
      es' = place abi p.cursor e :: es'' ∧ code = fill ++ rest := by
  rw [installEntries] at h
  split at h
  · next hs =>
    refine ⟨hs, ?_⟩
    simp only [made_bind_iff, made_lift_iff, made_newSlot_iff] at h
    obtain ⟨slot, -, ⟨rfl, rfl⟩, fill, -, ⟨hfill, rfl⟩, ⟨es'', rest⟩, q', hrest, hend⟩ := h
    rw [made_pure_iff] at hend
    obtain ⟨hpair, rfl⟩ := hend
    simp only [Prod.mk.injEq] at hpair
    obtain ⟨rfl, rfl⟩ := hpair
    exact ⟨fill, rest, es'', hfill, hrest, rfl, rfl⟩
  · rw [made_bind_iff] at h
    obtain ⟨_, _, hthrow, _⟩ := h
    exact absurd hthrow not_made_throw

theorem made_install_none {ctx : Context} {loc : Location} {t : Option Table} {code : List Line}
    (h : Made (install ctx loc none) p (t, code) q) : t = none ∧ code = [] ∧ q = p := by
  simp only [install, made_pure_iff, Prod.mk.injEq] at h
  obtain ⟨⟨rfl, rfl⟩, rfl⟩ := h
  exact ⟨rfl, rfl, rfl⟩

theorem made_install_some {ctx : Context} {loc : Location} {t : Table} {t' : Option Table}
    {code : List Line} (h : Made (install ctx loc (some t)) p (t', code) q) :
    ∃ es q' log, t' = some ⟨es⟩ ∧ Made (installEntries ctx.abi loc 0 t.entries) p (es, code) q' ∧
      q = { q' with log } := by
  rw [install, made_bind_iff] at h
  obtain ⟨⟨es, code'⟩, q', hes, h⟩ := h
  simp only at h
  split at h
  · rw [made_pure_iff] at h
    obtain ⟨hpair, rfl⟩ := h
    simp only [Prod.mk.injEq] at hpair
    obtain ⟨rfl, rfl⟩ := hpair
    exact ⟨es, q', q'.log, rfl, hes, rfl⟩
  · simp only [made_bind_iff, made_get_iff] at h
    obtain ⟨_, _, ⟨rfl, rfl⟩, _, q'', hnote, h⟩ := h
    rw [made_pure_iff] at h
    obtain ⟨hpair, rfl⟩ := h
    simp only [Prod.mk.injEq] at hpair
    obtain ⟨rfl, rfl⟩ := hpair
    obtain ⟨log, rfl⟩ := made_note hnote
    exact ⟨es, _, log, rfl, hes, rfl⟩

/-! ### Expressions -/

section

variable {abi : Abi} {scopes : Scopes} {loc : Location} {code : List Line}

theorem resolve_eq_ok {name : String} {e : Entry} (h : resolve scopes loc name = .ok e) :
    scopes.find? name = some e ∧ e.type.isScalar := by
  unfold resolve at h
  split at h
  · cases h
  · next e' he =>
    split at h
    · next hs =>
      cases h
      exact ⟨he, hs⟩
    · cases h

/-- A constant that has a place in code fits 32 bits. -/
theorem toInt_immediate {v : ℤ} {n : Int64} (h : immediate loc v = .ok n) :
    n.toInt = v ∧ -2 ^ 31 ≤ v ∧ v < 2 ^ 31 := by
  unfold immediate at h
  split at h
  · next hv =>
    cases h
    have hlow : -2 ^ 31 ≤ v ∧ v < 2 ^ 31 := by
      rw [Text.inWord, Bool.and_eq_true, decide_eq_true_eq, decide_eq_true_eq] at hv
      exact hv
    exact ⟨Int64.toInt_ofInt_of_le (by omega) (by omega), hlow⟩
  · cases h

theorem literal_eq_ok {c : Constant} (h : literal c = .ok code) :
    ∃ n, immediate c.loc c.value = .ok n ∧ code = .op "li" [t0, .imm n] :: push t0 := by
  unfold literal at h
  split at h
  · rw [ok_bind_iff] at h
    obtain ⟨n, hn, h⟩ := h
    exact ⟨n, hn, (ok_pure_iff.mp h).symm⟩
  · rw [ok_bind_iff] at h
    obtain ⟨_, h, _⟩ := h
    cases h

theorem load_eq_ok {r : Reference} (h : load scopes r = .ok code) :
    ∃ e, resolve scopes r.loc r.name = .ok e ∧
      code = [.remark ("load " ++ r.name)] ++ loadAddress t0 e ++ [.op "lw" [t0, .mem 0 "t0"]] ++
        push t0 := by
  unfold load at h
  rw [ok_bind_iff] at h
  obtain ⟨e, he, h⟩ := h
  exact ⟨e, he, (ok_pure_iff.mp h).symm⟩

theorem expression_binary {op : Operator} {left right : Expr}
    (h : expression abi scopes (.binary loc op left right) = .ok code) :
    ∃ lc rc oc, expression abi scopes left = .ok lc ∧ expression abi scopes right = .ok rc ∧
      operation loc op = .ok oc ∧ code = lc ++ rc ++ pop t1 ++ pop t0 ++ oc ++ push t0 := by
  simp only [expression, ok_bind_iff, ok_pure_iff] at h
  obtain ⟨lc, hl, rc, hr, oc, ho, rfl⟩ := h
  exact ⟨lc, rc, oc, hl, hr, ho, rfl⟩

theorem expression_unary {op : Operator} {operand : Expr}
    (h : expression abi scopes (.unary loc op operand) = .ok code) :
    ∃ c oc, expression abi scopes operand = .ok c ∧ unaryOperation loc op = .ok oc ∧
      code = c ++ pop t0 ++ oc ++ push t0 := by
  simp only [expression, ok_bind_iff, ok_pure_iff] at h
  obtain ⟨c, hc, oc, ho, rfl⟩ := h
  exact ⟨c, oc, hc, ho, rfl⟩

theorem expression_call {callee : String} {args : List Expr}
    (h : expression abi scopes (.call loc callee args) = .ok code) :
    ∃ c, args.length ≤ abi.registers.length ∧ arguments abi scopes callee 0 args = .ok c ∧
      code = c ++ transfer abi callee args.length := by
  simp only [expression, ok_bind_iff, ok_pure_iff] at h
  obtain ⟨_, hcount, c, hc, rfl⟩ := h
  refine ⟨c, ?_, hc, rfl⟩
  unfold checkArguments at hcount
  split at hcount
  · assumption
  · cases hcount

theorem arguments_cons {callee : String} {i : ℕ} {e : Expr} {es : List Expr}
    (h : arguments abi scopes callee i (e :: es) = .ok code) :
    ∃ c rest, expression abi scopes e = .ok c ∧ arguments abi scopes callee (i + 1) es = .ok rest ∧
      code = [.remark ("argument " ++ Text.decimal i ++ " of " ++ callee)] ++ c ++ rest := by
  simp only [arguments, ok_bind_iff, ok_pure_iff] at h
  obtain ⟨c, hc, rest, hrest, rfl⟩ := h
  exact ⟨c, rest, hc, hrest, rfl⟩

/-- The bounds of a `for` loop are literals in order. -/
theorem boundValues_eq_ok {lower upper : Expr} {lo hi : Int64}
    (h : boundValues loc lower upper = .ok (lo, hi)) :
    ∃ c c', lower = .constant c ∧ upper = .constant c' ∧ immediate c.loc c.value = .ok lo ∧
      immediate c'.loc c'.value = .ok hi ∧ lo ≤ hi := by
  have hliteral : ∀ {b : Bound} {e : Expr} {n : Int64}, boundValue b e = .ok n →
      ∃ c, e = .constant c ∧ immediate c.loc c.value = .ok n := by
    intro b e n hb
    unfold boundValue at hb
    split at hb
    · next c =>
      split at hb
      · exact ⟨c, rfl, hb⟩
      · cases hb
    · cases hb
  simp only [boundValues, ok_bind_iff] at h
  obtain ⟨lo', hlo, hi', hhi, h⟩ := h
  obtain ⟨c, hc, hlo⟩ := hliteral hlo
  obtain ⟨c', hc', hhi⟩ := hliteral hhi
  split at h
  · next hle =>
    cases h
    exact ⟨c, c', hc, hc', hlo, hhi, hle⟩
  · cases h

/-- What the entry of a scope is filled with. -/
theorem fillSlot_eq_ok {params : ℕ} {e : Entry} (h : fillSlot abi loc params e = .ok code) :
    (e.kind = .constant ∧ ∃ v n, e.value = some v ∧ immediate loc v = .ok n ∧
      code = [.remark ("local constant " ++ e.name), .op "li" [t0, .imm n],
        .op "sw" [t0, .mem e.slot "s0"]]) ∨
    (e.kind = .parameter ∧ ∃ r, abi.registers[params]? = some r ∧
      code = [.remark ("parameter " ++ e.name), .op "sw" [.reg r, .mem e.slot "s0"]]) ∨
    (e.kind ≠ .constant ∧ e.kind ≠ .parameter ∧ code = []) := by
  unfold fillSlot at h
  split at h
  · next hk =>
    split at h
    · cases h
    · next v hv =>
      rw [ok_bind_iff] at h
      obtain ⟨n, hn, h⟩ := h
      exact .inl ⟨hk, v, n, hv, hn, (ok_pure_iff.mp h).symm⟩
  · next hk =>
    split at h
    · cases h
    · next r hr =>
      cases h
      exact .inr (.inl ⟨hk, r, hr, rfl⟩)
  · next hk hk' =>
    cases h
    exact .inr (.inr ⟨hk, hk', rfl⟩)

end

/-! ### Statements -/

variable {ctx : Context} {scopes : Scopes} {loc : Location} {code : List Line}

theorem made_print {target : Expr} (h : Made (statement ctx scopes (.print loc target)) p code q) :
    ∃ c, expression ctx.abi scopes target = .ok c ∧ q = p ∧
      code = [.remark "print"] ++ c ++ pop a0 ++ [.op "jal" [ra, .label ctx.abi.printHelper]] := by
  simp only [statement, made_lift_iff, printCode, ok_bind_iff, ok_pure_iff] at h
  obtain ⟨⟨c, hc, rfl⟩, rfl⟩ := h
  exact ⟨c, hc, rfl, rfl⟩

theorem made_read {target : Reference}
    (h : Made (statement ctx scopes (.read loc target)) p code q) :
    ∃ e, resolve scopes target.loc target.name = .ok e ∧ q = p ∧
      code = [.remark ("read " ++ target.name)] ++ loadAddress t0 e ++ push t0 ++
        [.op "jal" [ra, .label ctx.abi.readHelper]] ++ pop t0 ++ [.op "sw" [a0, .mem 0 "t0"]] := by
  simp only [statement, made_lift_iff, readCode, ok_bind_iff, ok_pure_iff] at h
  obtain ⟨⟨e, he, rfl⟩, rfl⟩ := h
  exact ⟨e, he, rfl, rfl⟩

theorem made_assign {target : Reference} {value : Expr}
    (h : Made (statement ctx scopes (.assign loc target value)) p code q) :
    ∃ e c, resolve scopes target.loc target.name = .ok e ∧
      expression ctx.abi scopes value = .ok c ∧ q = p ∧
      code = [.remark ("assign " ++ target.name)] ++ loadAddress t0 e ++ push t0 ++ c ++ pop t1 ++
        pop t0 ++ [.op "sw" [t1, .mem 0 "t0"]] := by
  simp only [statement, made_lift_iff, assignCode, ok_bind_iff, ok_pure_iff] at h
  obtain ⟨⟨e, he, c, hc, rfl⟩, rfl⟩ := h
  exact ⟨e, c, he, hc, rfl, rfl⟩

theorem made_ret {value : Expr} (h : Made (statement ctx scopes (.ret loc value)) p code q) :
    ∃ c, expression ctx.abi scopes value = .ok c ∧ q = p ∧
      code = [.remark "return"] ++ c ++ pop a0 ++ [.op "j" [.label ctx.exitLabel]] := by
  simp only [statement, made_lift_iff, returnCode, ok_bind_iff, ok_pure_iff] at h
  obtain ⟨⟨c, hc, rfl⟩, rfl⟩ := h
  exact ⟨c, hc, rfl, rfl⟩

theorem made_branch {condition : Expr} {yes no : Option Block}
    (h : Made (statement ctx scopes (.branch loc condition yes no)) p code q) :
    ∃ test yesCode noCode p' p'', expression ctx.abi scopes condition = .ok test ∧
      p' = { p with labels := p.labels + 2 } ∧
      Made (optionalBlock ctx scopes yes) p' yesCode p'' ∧
      Made (optionalBlock ctx scopes no) p'' noCode q ∧
      code = test ++ pop t0 ++ [.op "beqz" [t0, .label (".L" ++ Text.decimal (p.labels + 1))]] ++
        yesCode ++ [.op "j" [.label (".L" ++ Text.decimal ((p.labels + 1 : ℕ) + 1))],
          .label (".L" ++ Text.decimal (p.labels + 1))] ++ noCode ++
        [.label (".L" ++ Text.decimal ((p.labels + 1 : ℕ) + 1))] := by
  simp only [statement, made_bind_iff, made_newLabel_iff, made_lift_iff, made_pure_iff, testCode,
    ok_bind_iff, ok_pure_iff] at h
  obtain ⟨_, _, ⟨rfl, rfl⟩, _, _, ⟨rfl, rfl⟩, _, _, ⟨⟨test, htest, rfl⟩, rfl⟩, yesCode, p'', hyes,
    noCode, _, hno, rfl, rfl⟩ := h
  exact ⟨test, yesCode, noCode, _, p'', htest, rfl, hyes, hno, rfl⟩

theorem made_loop {condition : Expr} {body : Option Block}
    (h : Made (statement ctx scopes (.loop loc condition body)) p code q) :
    ∃ test bodyCode p', expression ctx.abi scopes condition = .ok test ∧
      p' = { p with labels := p.labels + 2 } ∧
      Made (optionalBlock ctx scopes body) p' bodyCode q ∧
      code = [.label (".L" ++ Text.decimal (p.labels + 1))] ++ (test ++ pop t0 ++
        [.op "beqz" [t0, .label (".L" ++ Text.decimal ((p.labels + 1 : ℕ) + 1))]]) ++ bodyCode ++
        [.op "j" [.label (".L" ++ Text.decimal (p.labels + 1))],
          .label (".L" ++ Text.decimal ((p.labels + 1 : ℕ) + 1))] := by
  simp only [statement, made_bind_iff, made_newLabel_iff, made_lift_iff, made_pure_iff, testCode,
    ok_bind_iff, ok_pure_iff] at h
  obtain ⟨_, _, ⟨rfl, rfl⟩, _, _, ⟨rfl, rfl⟩, _, _, ⟨⟨test, htest, rfl⟩, rfl⟩, bodyCode, _, hbody,
    rfl, rfl⟩ := h
  exact ⟨test, bodyCode, _, htest, rfl, hbody, rfl⟩

theorem made_count {scope : Option Table} {var : String} {lower upper : Expr} {body : Option Block}
    (h : Made (statement ctx scopes (.count loc scope var lower upper body)) p code q) :
    ∃ lo hi scope' fill e bodyCode p' p'',
      boundValues loc lower upper = .ok (lo, hi) ∧
      Made (install ctx loc scope) p (scope', fill) p' ∧
      resolve (scopes.enter scope') loc var = .ok e ∧
      p'' = { p' with labels := p'.labels + 2 } ∧
      Made (optionalBlock ctx (scopes.enter scope') body) p'' bodyCode q ∧
      code = fill ++ countCode e var lo hi (".L" ++ Text.decimal (p'.labels + 1))
        (".L" ++ Text.decimal ((p'.labels + 1 : ℕ) + 1)) bodyCode := by
  simp only [statement, made_bind_iff, made_newLabel_iff, made_lift_iff, made_pure_iff] at h
  obtain ⟨⟨lo, hi⟩, _, ⟨hbounds, rfl⟩, ⟨scope', fill⟩, p', hscope, e, _, ⟨he, rfl⟩, _, _,
    ⟨rfl, rfl⟩, _, _, ⟨rfl, rfl⟩, bodyCode, _, hbody, rfl, rfl⟩ := h
  exact ⟨lo, hi, scope', fill, e, bodyCode, p', _, hbounds, hscope, he, rfl, hbody, rfl⟩

theorem made_call {callee : String} {args : List Expr}
    (h : Made (statement ctx scopes (.call loc callee args)) p code q) :
    ∃ c, call ctx.abi scopes loc callee args = .ok c ∧ q = p ∧ code = c ++ discard := by
  simp only [statement, made_bind_iff, made_lift_iff, made_pure_iff] at h
  obtain ⟨c, _, ⟨hc, rfl⟩, rfl, rfl⟩ := h
  exact ⟨c, hc, rfl, rfl⟩

theorem made_block {scope : Option Table} {decls : List Decl} {body : List Stmt}
    (h : Made (block ctx scopes (.mk loc scope decls body)) p code q) :
    ∃ scope' fill bodyCode p', Made (install ctx loc scope) p (scope', fill) p' ∧
      Made (statements ctx (scopes.enter scope') body) p' bodyCode q ∧ code = fill ++ bodyCode := by
  simp only [block, made_bind_iff, made_pure_iff] at h
  obtain ⟨⟨scope', fill⟩, p', hscope, bodyCode, _, hbody, rfl, rfl⟩ := h
  exact ⟨scope', fill, bodyCode, p', hscope, hbody, rfl⟩

theorem made_statements_cons {s : Stmt} {ss : List Stmt}
    (h : Made (statements ctx scopes (s :: ss)) p code q) :
    ∃ first rest p', Made (statement ctx scopes s) p first p' ∧
      Made (statements ctx scopes ss) p' rest q ∧ code = first ++ rest := by
  simp only [statements, made_bind_iff, made_pure_iff] at h
  obtain ⟨first, p', hs, rest, _, hss, rfl, rfl⟩ := h
  exact ⟨first, rest, p', hs, hss, rfl⟩

/-! ### Functions and programs

The body of the program is lowered like that of a function without a scope of its own, so it is
treated as one, the last one. -/

/-- The function that a program starts with. -/
def mainFunction (abi : Abi) (p : RvBackend.Program) : RvBackend.Function :=
  { loc := p.loc, name := abi.entry, body := p.body }

/-- All functions that code is made for, in that order. -/
def routines (abi : Abi) (p : RvBackend.Program) : List RvBackend.Function :=
  p.functions ++ [mainFunction abi p]

/-- The code of a function is made: its entries get their slots, its body gets its code, and both
stand in a frame that is made for the slots given out. -/
def LoweredFunction (abi : Abi) (globals : Scopes) (f : RvBackend.Function) (p : Progress)
    (g : Asm.Function) (q : Progress) : Prop :=
  ∃ scope fill body size log log' p' p'',
    Made (install ⟨abi, f.name⟩ f.loc f.scope) { p with cursor := ({} : Progress).cursor, log }
      (scope, fill) p' ∧
    Made (optionalBlock ⟨abi, f.name⟩ (globals.enter scope) f.body) p' body p'' ∧
    frameSize ⟨abi, f.name⟩ f.loc p''.cursor = .ok size ∧
    q = { p'' with log := log' } ∧ g.name = f.name ∧
    g.lines = frameCode ⟨abi, f.name⟩ size (fill ++ body)

/-- The code of functions is made, one after the other. -/
inductive LoweredAll (abi : Abi) (globals : Scopes) :
    List RvBackend.Function → Progress → List Asm.Function → Progress → Prop
  | nil {p : Progress} {log : Array LogRecord} : LoweredAll abi globals [] p [] { p with log }
  | cons {f : RvBackend.Function} {fs : List RvBackend.Function} {g : Asm.Function}
      {gs : List Asm.Function} {p q r : Progress} (head : LoweredFunction abi globals f p g q)
      (tail : LoweredAll abi globals fs q gs r) : LoweredAll abi globals (f :: fs) p (g :: gs) r

theorem made_atStage_iff {stage : Stage} {x : Lowering α} {a : α} :
    Made (atStage stage x) p a q ↔ Made x p a q := by
  have hstage : outcome (atStage stage x) p =
      ((outcome x p).1.mapError (Failure.mk stage), (outcome x p).2) := rfl
  unfold Made
  rw [hstage]
  rcases outcome x p with ⟨e | a, q⟩ <;> simp [Except.mapError]

theorem made_finishFunction {isGlobal : Bool} {body : List Line} {g : Asm.Function}
    (h : Made (finishFunction ctx loc isGlobal body) p g q) :
    ∃ size log, frameSize ctx loc p.cursor = .ok size ∧ q = { p with log } ∧
      g = { name := ctx.function, isGlobal, lines := frameCode ctx size body } := by
  simp only [finishFunction, made_bind_iff, made_get_iff, made_lift_iff, made_pure_iff] at h
  obtain ⟨_, _, ⟨rfl, rfl⟩, size, _, ⟨hsize, rfl⟩, _, _, hnote, rfl, rfl⟩ := h
  obtain ⟨log, rfl⟩ := made_note hnote
  exact ⟨size, log, hsize, rfl, rfl⟩

theorem made_lowerFunction {abi : Abi} {globals : Scopes} {f : RvBackend.Function}
    {g : Asm.Function} (h : Made (lowerFunction abi globals f) p g q) :
    checkParameters abi f = .ok () ∧ g.isGlobal = false ∧ LoweredFunction abi globals f p g q := by
  simp only [lowerFunction, made_bind_iff, made_lift_iff, beginFunction, made_modify_iff] at h
  obtain ⟨_, _, hnote, _, _, ⟨hcheck, rfl⟩, _, _, rfl, ⟨scope, fill⟩, p', hscope, body, p'', hbody,
    hend⟩ := h
  obtain ⟨log, rfl⟩ := made_note hnote
  obtain ⟨size, log', hsize, rfl, rfl⟩ := made_finishFunction hend
  exact ⟨hcheck, rfl, scope, fill, body, size, log, log', p', p'', hscope, hbody, hsize, rfl, rfl,
    rfl⟩

theorem made_mapM_lowerFunction {abi : Abi} {globals : Scopes} :
    ∀ {fs : List RvBackend.Function} {gs : List Asm.Function} {p q : Progress},
      Made (fs.mapM fun f => atStage (.function f.name) (lowerFunction abi globals f)) p gs q →
      (∀ f ∈ fs, checkParameters abi f = .ok ()) ∧ (∀ g ∈ gs, g.isGlobal = false) ∧
        LoweredAll abi globals fs p gs q
  | [], gs, p, q, h => by
    rw [List.mapM_nil, made_pure_iff] at h
    obtain ⟨rfl, rfl⟩ := h
    exact ⟨by simp, by simp, .nil⟩
  | f :: fs, gs, p, q, h => by
    simp only [List.mapM_cons, made_bind_iff, made_pure_iff, made_atStage_iff] at h
    obtain ⟨g, p', hg, gs', _, hgs, rfl, rfl⟩ := h
    obtain ⟨hcheck, hglobal, hlow⟩ := made_lowerFunction hg
    obtain ⟨hchecks, hglobals, hall⟩ := made_mapM_lowerFunction hgs
    refine ⟨?_, ?_, .cons hlow hall⟩
    · exact List.forall_mem_cons.mpr ⟨hcheck, hchecks⟩
    · exact List.forall_mem_cons.mpr ⟨hglobal, hglobals⟩

theorem LoweredAll.concat {abi : Abi} {globals : Scopes} {fs : List RvBackend.Function}
    {gs : List Asm.Function} {f : RvBackend.Function} {g : Asm.Function} {p q r : Progress}
    (h : LoweredAll abi globals fs p gs q) (hf : LoweredFunction abi globals f q g r) :
    LoweredAll abi globals (fs ++ [f]) p (gs ++ [g]) r := by
  induction h with
  | nil => exact .cons hf .nil
  | cons head _ ih => exact .cons head (ih hf)

theorem LoweredAll.of_log {abi : Abi} {globals : Scopes} {fs : List RvBackend.Function}
    {gs : List Asm.Function} {log : Array LogRecord}
    (h : LoweredAll abi globals fs { p with log } gs q) : LoweredAll abi globals fs p gs q := by
  cases h with
  | nil => exact .nil
  | cons head tail => exact .cons head tail

/-- What holds of a program whose code is made. -/
structure LoweredProgram (abi : Abi) (p : RvBackend.Program) (code : Asm.Program) (q : Progress) :
    Prop where
  names : checkNames abi p = .ok ()
  storages : globalStorages p = .ok (code.globals, code.constants)
  file : code.file = p.file
  parameters : ∀ f ∈ p.functions, checkParameters abi f = .ok ()
  functions : LoweredAll abi (Scopes.enter [] p.scope) (routines abi p) {} code.functions q

theorem exists_made_atStage {stage : Stage} {x : Lowering α} {R : α → Progress → Prop}
    (h : ∃ a q, Made x p a q ∧ R a q) : ∃ a q, Made (atStage stage x) p a q ∧ R a q := by
  obtain ⟨a, q, hx, hR⟩ := h
  exact ⟨a, q, made_atStage_iff.mpr hx, hR⟩

theorem made_programSteps {abi : Abi} {p : RvBackend.Program} {code : Asm.Program}
    (h : Made (programSteps abi p) {} code q) : LoweredProgram abi p code q := by
  simp only [programSteps, made_bind_iff, made_atStage_iff, made_lift_iff, made_pure_iff,
    beginFunction, made_modify_iff, made_get_iff] at h
  obtain ⟨⟨globals, constants⟩, _,
    ⟨_, _, ⟨hnames, rfl⟩, ⟨globals', constants'⟩, _, ⟨hstorages, rfl⟩, _, _, hnote, hpair, rfl⟩,
    functions, p', hfunctions, body, p'', ⟨_, _, rfl, hbody⟩, entry, last, hentry, _, _, ⟨rfl, rfl⟩,
    _, _, hnote', rfl, rfl⟩ := h
  obtain ⟨log, rfl⟩ := made_note hnote
  obtain ⟨log', rfl⟩ := made_note hnote'
  obtain ⟨size, log'', hsize, rfl, rfl⟩ := made_finishFunction hentry
  simp only [Prod.mk.injEq] at hpair
  obtain ⟨rfl, rfl⟩ := hpair
  obtain ⟨hparameters, -, hall⟩ := made_mapM_lowerFunction hfunctions
  have hmain : LoweredFunction abi (Scopes.enter [] p.scope) (mainFunction abi p) p'
      { name := abi.entry, isGlobal := true, lines := frameCode ⟨abi, abi.entry⟩ size body }
      { p'' with log := log' } :=
    ⟨none, [], body, size, p'.log, log', _, p'', made_pure_iff.mpr ⟨rfl, rfl⟩, hbody, hsize, rfl,
      rfl, rfl⟩
  exact ⟨hnames, hstorages, rfl, hparameters, (hall.concat hmain).of_log⟩

theorem loweredProgram_of_code {abi : Abi} {p : RvBackend.Program} {code : Asm.Program}
    (h : (lowerProgram abi p).code = .ok code) :
    ∃ q, LoweredProgram abi p code q ∧ (lowerProgram abi p).slots = q.slots.toList := by
  have hmade : Made (programSteps abi p) {} code (outcome (programSteps abi p) {}).2 :=
    Prod.ext h rfl
  exact ⟨_, made_programSteps hmade, rfl⟩

end RvBackend.Lower
