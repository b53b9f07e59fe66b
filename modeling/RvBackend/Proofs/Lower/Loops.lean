import RvBackend.Proofs.Lower.Labels

/-! # The loops of generated code

Each `for` loop of a program has a piece of code of its own, with two labels that no other loop has:
its variable is set and tested, then comes the code of the body, and behind it the variable is
counted up.

* `Stmt.counts`: the `for` loops of a statement, each before those in its body.
* `Loop`: the code of a `for` loop, `Loop.IsOf`: which one it is.
* `LoweredAll.hasLoops`: the code of each function holds a loop for each of its `for` loops. -/

namespace RvBackend

/-! ### The `for` loops of a tree -/

/-- A `for` loop in a tree. -/
structure Counting where
  loc : Location
  scope : Option Table
  var : String
  lower : Expr
  upper : Expr
  body : Option Block

mutual

/-- The `for` loops of a statement. -/
def Stmt.counts : Stmt → List Counting
  | .block b => b.counts
  | .branch _ _ yes no => blockCounts yes ++ blockCounts no
  | .loop _ _ body => blockCounts body
  | .count loc scope var lower upper body => ⟨loc, scope, var, lower, upper, body⟩ ::
      blockCounts body
  | .print .. => []
  | .read .. => []
  | .assign .. => []
  | .ret .. => []
  | .call .. => []

/-- The `for` loops of a block. -/
def Block.counts : Block → List Counting
  | .mk _ _ _ statements => statementsCounts statements

/-- The `for` loops of a block that may be missing. -/
def blockCounts : Option Block → List Counting
  | none => []
  | some b => b.counts

/-- The `for` loops of statements. -/
def statementsCounts : List Stmt → List Counting
  | [] => []
  | s :: ss => s.counts ++ statementsCounts ss

end

/-- The `for` loops of a function. -/
def Function.counts (f : Function) : List Counting := blockCounts f.body

namespace Lower

open Asm

/-! ### Their code -/

/-- The code of a `for` loop: what its variable is, its bounds, how many labels were made before its
own, and the code of its body. -/
structure Loop where
  scopes : Scopes
  entry : Entry
  var : String
  lo : Int64
  hi : Int64
  labels : ℕ
  body : List Line

namespace Loop

variable (l : Loop)

/-- The label of the test. -/
def again : String := freshLabel l.labels

/-- The label behind the loop. -/
def done : String := freshLabel (l.labels + 1)

/-- The lines before the body: the variable is set to the lower bound, and compared to the upper
one. -/
def head : List Line :=
  loadAddress t0 l.entry ++
    [.op "li" [t1, .imm l.lo], .op "sw" [t1, .mem 0 "t0"], .label l.again] ++
  (loadAddress t0 l.entry ++
  [.op "lw" [t0, .mem 0 "t0"], .op "li" [t1, .imm l.hi], .op "beq" [t0, t1, .label l.done]])

/-- The lines behind the body: the variable is counted up. -/
def tail : List Line :=
  loadAddress t0 l.entry ++
  [.op "lw" [t1, .mem 0 "t0"], .op "addi" [t1, t1, .imm 1], .op "sw" [t1, .mem 0 "t0"],
    .op "j" [.label l.again], .label l.done]

/-- All lines of the loop but the comment before them. -/
def code : List Line := l.head ++ (l.body ++ l.tail)

/-- The loop is the code of a `for` loop: it has its bounds, two words in order, and its variable,
and its body is the code of the body where the same names are visible. -/
structure IsOf (ctx : Context) (w : Counting) (l : Loop) : Prop where
  lower : ∃ c, w.lower = .constant c ∧ c.value = l.lo.toInt
  upper : ∃ c, w.upper = .constant c ∧ c.value = l.hi.toInt
  le_lo : -2 ^ 31 ≤ l.lo.toInt
  lo_le_hi : l.lo.toInt ≤ l.hi.toInt
  hi_lt : l.hi.toInt < 2 ^ 31
  var : l.var = w.var
  entry : resolve l.scopes w.loc l.var = .ok l.entry
  body : ∃ p q, Made (optionalBlock ctx l.scopes w.body) p l.body q

end Loop

theorem infix_countCode (l : Loop) :
    l.code <:+: countCode l.entry l.var l.lo l.hi l.again l.done l.body := by
  refine ⟨[.remark ("for " ++ l.var ++ " in [" ++ Text.decimal l.lo.toInt ++ ", " ++
    Text.decimal l.hi.toInt ++ ")")], [], ?_⟩
  simp only [Loop.code, Loop.head, Loop.tail, countCode, List.append_assoc, List.append_nil]

/-- Code holds a loop for each of some `for` loops, in their order, with labels made between two
counts. -/
def HasLoops (ctx : Context) (cs : List Counting) (code : List Line) (m n : ℕ) : Prop :=
  ∃ loops : List Loop, List.Forall₂ (Loop.IsOf ctx) cs loops ∧
    loops.Pairwise (fun l l' => l.labels < l'.labels) ∧ ∀ l ∈ loops, l.code <:+: code ∧
    m ≤ l.labels ∧ l.labels < n

section

variable {ctx : Context} {cs cs' : List Counting} {code code' : List Line} {m n k : ℕ}

theorem HasLoops.none (code : List Line) (m n : ℕ) : HasLoops ctx [] code m n :=
  ⟨[], .nil, .nil, fun _ hl => absurd hl List.not_mem_nil⟩

theorem HasLoops.append (h : HasLoops ctx cs code m n) (h' : HasLoops ctx cs' code' n k)
    (hm : m ≤ n) (hk : n ≤ k) :
    HasLoops ctx (cs ++ cs') (code ++ code') m k := by
  obtain ⟨loops, hof, hless, hall⟩ := h
  obtain ⟨loops', hof', hless', hall'⟩ := h'
  refine ⟨loops ++ loops', List.rel_append hof hof', List.pairwise_append.mpr ⟨hless, hless', ?_⟩,
    List.forall_mem_append.mpr ⟨?_, ?_⟩⟩
  · intro l hl l' hl'
    exact (hall l hl).2.2.trans_le (hall' l' hl').2.1
  · intro l hl
    obtain ⟨hpart, hlow, hhigh⟩ := hall l hl
    exact ⟨hpart.trans (List.prefix_append _ _).isInfix, hlow, hhigh.trans_le hk⟩
  · intro l hl
    obtain ⟨hpart, hlow, hhigh⟩ := hall' l hl
    exact ⟨hpart.trans (List.suffix_append _ _).isInfix, hm.trans hlow, hhigh⟩

theorem HasLoops.within (h : HasLoops ctx cs code m n) (hpart : code <:+: code') (hk : k ≤ m) :
    HasLoops ctx cs code' k n := by
  obtain ⟨loops, hof, hless, hall⟩ := h
  exact ⟨loops, hof, hless,
    fun l hl => ⟨(hall l hl).1.trans hpart, hk.trans (hall l hl).2.1, (hall l hl).2.2⟩⟩

/-- A loop and those in its body. -/
theorem HasLoops.cons {c : Counting} {l : Loop} (hl : l.IsOf ctx c)
    (h : HasLoops ctx cs l.body (l.labels + 2) n) (hn : l.labels + 2 ≤ n) :
    HasLoops ctx (c :: cs) l.code l.labels n := by
  obtain ⟨loops, hof, hless, hall⟩ := h
  have hbody : l.body <:+: l.code := ⟨l.head, l.tail, List.append_assoc _ _ _⟩
  refine ⟨l :: loops, .cons hl hof, List.pairwise_cons.mpr ⟨fun l' hl' => ?_, hless⟩,
    List.forall_mem_cons.mpr ⟨⟨List.infix_rfl, le_refl _, by omega⟩, fun l' hl' => ?_⟩⟩
  · have hlow := (hall l' hl').2.1
    omega
  · obtain ⟨hpart, hlow, hhigh⟩ := hall l' hl'
    exact ⟨hpart.trans hbody, by omega, hhigh⟩

end

/-! ### Every `for` loop has its code -/

section

variable {ctx : Context}

mutual

theorem made_statement_loops : ∀ {s : Stmt} {scopes : Scopes} {code : List Line} {p q : Progress},
    Made (statement ctx scopes s) p code q → HasLoops ctx s.counts code p.labels q.labels
  | .block b, _, _, _, _, h => made_block_loops h
  | .branch _ _ yes no, _, _, p, q, h => by
    obtain ⟨test, yesCode, noCode, p', p'', -, rfl, hyes, hno, rfl⟩ := made_branch h
    -- the jump over the second block is counted to that block, so that the two are in a row
    have hboth : HasLoops ctx (blockCounts yes ++ blockCounts no) _ (p.labels + 2) q.labels :=
      (made_optionalBlock_loops hyes).append
        ((made_optionalBlock_loops hno).within (List.suffix_append
          [.op "j" [.label (".L" ++ Text.decimal ((p.labels + 1 : ℕ) + 1))],
            .label (".L" ++ Text.decimal (p.labels + 1))] _).isInfix (le_refl _))
        (made_optionalBlock_labels hyes).le (made_optionalBlock_labels hno).le
    refine hboth.within
      ⟨test ++ pop t0 ++ [.op "beqz" [t0, .label (".L" ++ Text.decimal (p.labels + 1))]],
        [.label (".L" ++ Text.decimal ((p.labels + 1 : ℕ) + 1))], ?_⟩ (by omega)
    simp only [List.append_assoc]
  | .loop _ _ body, _, _, p, q, h => by
    obtain ⟨test, bodyCode, p', -, rfl, hbody, rfl⟩ := made_loop h
    exact (made_optionalBlock_loops hbody).within ⟨_, _, rfl⟩ (Nat.le_add_right _ 2)
  | .count loc scope var lower upper body, scopes, _, p, q, h => by
    obtain ⟨lo, hi, scope', fill, e, bodyCode, p', p'', hbounds, hscope, he, rfl, hbody, rfl⟩ :=
      made_count h
    obtain ⟨c, c', hlower, hupper, hlo, hhi, hle⟩ := boundValues_eq_ok hbounds
    obtain ⟨hloValue, hloRange⟩ := toInt_immediate hlo
    obtain ⟨hhiValue, hhiRange⟩ := toInt_immediate hhi
    have hloop : Loop.IsOf ctx ⟨loc, scope, var, lower, upper, body⟩
        ⟨scopes.enter scope', e, var, lo, hi, p'.labels, bodyCode⟩ :=
      ⟨⟨c, hlower, hloValue.symm⟩, ⟨c', hupper, hhiValue.symm⟩, hloValue ▸ hloRange.1,
        Int64.le_iff_toInt_le.mp hle, hhiValue ▸ hhiRange.2, rfl, he, _, _, hbody⟩
    have hall :=
      HasLoops.cons hloop (made_optionalBlock_loops hbody) (made_optionalBlock_labels hbody).le
    refine hall.within ((infix_countCode _).trans (List.suffix_append fill _).isInfix) ?_
    rw [(labelsOf_install hscope).2]
  | .print _ _, _, _, _, _, _ => .none _ _ _
  | .read _ _, _, _, _, _, _ => .none _ _ _
  | .assign _ _ _, _, _, _, _, _ => .none _ _ _
  | .ret _ _, _, _, _, _, _ => .none _ _ _
  | .call _ _ _, _, _, _, _, _ => .none _ _ _

theorem made_block_loops : ∀ {b : Block} {scopes : Scopes} {code : List Line} {p q : Progress},
    Made (block ctx scopes b) p code q → HasLoops ctx b.counts code p.labels q.labels
  | .mk _ _ _ _, _, _, _, _, h => by
    obtain ⟨scope', fill, bodyCode, p', hscope, hbody, rfl⟩ := made_block h
    rw [← (labelsOf_install hscope).2]
    exact (made_statements_loops hbody).within (List.suffix_append fill _).isInfix (le_refl _)

theorem made_optionalBlock_loops :
    ∀ {b : Option Block} {scopes : Scopes} {code : List Line} {p q : Progress},
    Made (optionalBlock ctx scopes b) p code q → HasLoops ctx (blockCounts b) code p.labels q.labels
  | none, _, _, _, _, _ => .none _ _ _
  | some _, _, _, _, _, h => made_block_loops h

theorem made_statements_loops :
    ∀ {ss : List Stmt} {scopes : Scopes} {code : List Line} {p q : Progress},
    Made (statements ctx scopes ss) p code q →
      HasLoops ctx (statementsCounts ss) code p.labels q.labels
  | [], _, _, _, _, _ => .none _ _ _
  | s :: ss, _, _, _, _, h => by
    obtain ⟨first, rest, p', hs, hss, rfl⟩ := made_statements_cons h
    exact (made_statement_loops hs).append (made_statements_loops hss) (made_statement_labels hs).le
      (made_statements_labels hss).le

end

end

theorem LoweredFunction.hasLoops {abi : Abi} {globals : Scopes} {f : RvBackend.Function}
    {g : Asm.Function} {p q : Progress} (h : LoweredFunction abi globals f p g q) :
    ∃ m n, HasLoops ⟨abi, f.name⟩ f.counts g.lines m n := by
  obtain ⟨scope, fill, body, size, log, log', p', p'', -, hbody, -, rfl, -, hlines⟩ := h
  refine ⟨p'.labels, p''.labels, (made_optionalBlock_loops hbody).within ?_ (le_refl _)⟩
  rw [hlines, frameCode]
  exact (List.suffix_append fill body).isInfix.trans ⟨_, _, rfl⟩

/-- **The code of each function holds a loop for each of its `for` loops.** -/
theorem LoweredAll.hasLoops {abi : Abi} {globals : Scopes} {fs : List RvBackend.Function}
    {gs : List Asm.Function} {p q : Progress} (h : LoweredAll abi globals fs p gs q) :
    List.Forall₂ (fun f g => ∃ m n, HasLoops ⟨abi, f.name⟩ f.counts g.lines m n) fs gs := by
  induction h with
  | nil => exact .nil
  | cons head _ ih => exact .cons head.hasLoops ih

end Lower

end RvBackend
