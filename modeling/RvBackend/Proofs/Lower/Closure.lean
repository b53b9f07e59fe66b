import RvBackend.Proofs.Lower.ReadBack
import RvBackend.Proofs.Tree.Unslotted

/-! # What generated code refers to

A construct makes its two labels before the code of its parts and puts them into its code around
that of the parts. So a jump may go to a label that stands only further on, but never to one of
another function; and an address is loaded only of data that the program has.

* `Stmt.constructs` counts the constructs that labels are made for.
* `Closed`: code whose jumps and addresses refer to given labels and data.
* `made_statement_adds` and its companions: what a construct adds, its labels still pending or not.
* `labels_allocated_and_closed`: the labels of a program, and that nothing refers to others. -/

namespace RvBackend

/-! ### The constructs with labels -/

mutual

/-- The number of branches and loops in a statement. -/
def Stmt.constructs : Stmt → ℕ
  | .block b => b.constructs
  | .branch _ _ yes no => 1 + (blockConstructs yes + blockConstructs no)
  | .loop _ _ body => 1 + blockConstructs body
  | .count _ _ _ _ _ body => 1 + blockConstructs body
  | .print .. => 0
  | .read .. => 0
  | .assign .. => 0
  | .ret .. => 0
  | .call .. => 0

/-- The number of branches and loops in a block. -/
def Block.constructs : Block → ℕ
  | .mk _ _ _ statements => statementsConstructs statements

/-- The number of branches and loops in a block that may be missing. -/
def blockConstructs : Option Block → ℕ
  | none => 0
  | some b => b.constructs

/-- The number of branches and loops in statements. -/
def statementsConstructs : List Stmt → ℕ
  | [] => 0
  | s :: ss => s.constructs + statementsConstructs ss

end

/-- The number of branches and loops in a function. -/
def Function.constructs (f : Function) : ℕ := blockConstructs f.body

/-- The number of branches and loops in a program. -/
def Program.constructs (p : Program) : ℕ :=
  (p.functions.map Function.constructs).sum + blockConstructs p.body

namespace Lower

open Asm

/-! ### Code that is closed -/

/-- The instructions that go to a label of their own function. -/
def jumps : List String := ["j", "beqz", "beq"]

/-- An instruction refers to nothing else: the last operand of a jump is one of the labels
`targets`, and an address is that of one of the data `data`. -/
structure RefersTo (targets data : List String) (op : String × List Operand) : Prop where
  jump : op.1 ∈ jumps → ∃ front name, op.2 = front ++ [.label name] ∧ name ∈ targets
  address : op.1 = "la" → ∃ r name, op.2 = [r, .label name] ∧ name ∈ data

/-- The instructions of code refer to nothing else. -/
def Closed (targets data : List String) (code : List Line) : Prop :=
  ∀ op ∈ opsOf code, RefersTo targets data op

variable {targets data : List String}

theorem closed_append {code code' : List Line} :
    Closed targets data (code ++ code') ↔ Closed targets data code ∧ Closed targets data code' := by
  unfold Closed
  rw [opsOf_append, List.forall_mem_append]

theorem Closed.append {code code' : List Line} (h : Closed targets data code)
    (h' : Closed targets data code') :
    Closed targets data (code ++ code') :=
  closed_append.mpr ⟨h, h'⟩

theorem Closed.nil : Closed targets data [] := fun _ h => absurd h List.not_mem_nil

/-- Code without jumps and addresses. -/
theorem Closed.of_mnemonics {code : List Line} (ms : List String)
    (h : (opsOf code).map Prod.fst = ms) (hms : ∀ m ∈ ms, m ∉ jumps ∧ m ≠ "la") :
    Closed targets data code := by
  intro op hop
  have hm := hms op.1 (h ▸ List.mem_map_of_mem hop)
  exact ⟨fun hjump => absurd hjump hm.1, fun hla => absurd hla hm.2⟩

theorem closed_push (r : Operand) : Closed targets data (push r) :=
  .of_mnemonics ["addi", "sw"] rfl (by decide)

theorem closed_pop (r : Operand) : Closed targets data (pop r) :=
  .of_mnemonics ["lw", "addi"] rfl (by decide)

theorem closed_jump (mnemonic : String) (front : List Operand) {label : String}
    (hm : mnemonic ∈ jumps) (hl : label ∈ targets) :
    Closed targets data [.op mnemonic (front ++ [.label label])] := by
  intro op hop
  obtain rfl := List.mem_singleton.mp hop
  refine ⟨fun _ => ⟨front, label, rfl, hl⟩, ?_⟩
  rintro rfl
  exact absurd hm (by decide)

theorem closed_label (name : String) : Closed targets data [.label name] :=
  .of_mnemonics [] rfl (by decide)

theorem closed_remark (text : String) : Closed targets data [.remark text] :=
  .of_mnemonics [] rfl (by decide)

/-- The code of a branch around that of its parts. -/
theorem Closed.branch {test yes no : List Line} {a b : String} (ha : a ∈ targets) (hb : b ∈ targets)
    (htest : Closed targets data test) (hyes : Closed targets data yes)
    (hno : Closed targets data no) :
    Closed targets data (test ++ pop t0 ++ [.op "beqz" [t0, .label a]] ++ yes ++
      [.op "j" [.label b], .label a] ++ no ++ [.label b]) := by
  have htested := (htest.append (closed_pop t0)).append (closed_jump "beqz" [t0] (by decide) ha)
  have hmiddle : Closed targets data [.op "j" [.label b], .label a] :=
    (closed_jump "j" [] (by decide) hb).append (closed_label a)
  exact (((htested.append hyes).append hmiddle).append hno).append (closed_label b)

/-- The code of a `while` loop around that of its parts. -/
theorem Closed.loop {test body : List Line} {a b : String} (ha : a ∈ targets) (hb : b ∈ targets)
    (htest : Closed targets data test) (hbody : Closed targets data body) :
    Closed targets data ([.label a] ++ (test ++ pop t0 ++ [.op "beqz" [t0, .label b]]) ++ body ++
      [.op "j" [.label a], .label b]) := by
  have htested := (htest.append (closed_pop t0)).append (closed_jump "beqz" [t0] (by decide) hb)
  have hlast : Closed targets data [.op "j" [.label a], .label b] :=
    (closed_jump "j" [] (by decide) ha).append (closed_label b)
  exact (((closed_label a).append htested).append hbody).append hlast

/-- The code of a `for` loop around that of its body. -/
theorem Closed.count {body : List Line} {a b : String} (ha : a ∈ targets) (hb : b ∈ targets)
    {e : Entry} (haddress : Closed targets data (loadAddress t0 e))
    (hbody : Closed targets data body) (var : String) (lo hi : Int64) :
    Closed targets data (countCode e var lo hi a b body) := by
  have hset : Closed targets data [.op "li" [t1, .imm lo], .op "sw" [t1, .mem 0 "t0"], .label a] :=
    .of_mnemonics ["li", "sw"] rfl (by decide)
  have hload : Closed targets data [.op "lw" [t0, .mem 0 "t0"], .op "li" [t1, .imm hi]] :=
    .of_mnemonics ["lw", "li"] rfl (by decide)
  have htest := hload.append (closed_jump "beq" [t0, t1] (by decide) hb)
  have hnext : Closed targets data [.op "lw" [t1, .mem 0 "t0"], .op "addi" [t1, t1, .imm 1],
      .op "sw" [t1, .mem 0 "t0"]] := .of_mnemonics ["lw", "addi", "sw"] rfl (by decide)
  have hlast := (hnext.append (closed_jump "j" [] (by decide) ha)).append (closed_label b)
  exact (((((((closed_remark _).append haddress).append hset).append haddress).append htest).append
    hbody).append haddress).append hlast

/-! ### Expressions -/

/-- The global entries in some scopes are data. -/
def Seen (data : List String) (scopes : Scopes) : Prop :=
  ∀ t ∈ scopes, ∀ e ∈ t.entries, e.isGlobal = true → e.name ∈ data

theorem Seen.closed_loadAddress {scopes : Scopes} {loc : Location} {name : String} {e : Entry}
    (hseen : Seen data scopes) (h : resolve scopes loc name = .ok e) (r : Operand) :
    Closed targets data (loadAddress r e) := by
  obtain ⟨-, t, ht, he⟩ := find?_mem (resolve_eq_ok h).1
  unfold loadAddress
  split
  · next hglobal =>
    intro op hop
    obtain rfl := List.mem_singleton.mp hop
    have hla : "la" ∉ jumps := by decide
    exact ⟨fun hjump => absurd hjump hla, fun _ => ⟨r, e.name, rfl, hseen t ht e he hglobal⟩⟩
  · exact .of_mnemonics ["addi"] rfl (by decide)

theorem closed_operation {loc : Location} {op : Operator} {code : List Line}
    (h : operation loc op = .ok code) :
    Closed targets data code := by
  have hcomparison : Closed targets data (comparison op) := by
    unfold comparison
    split
    · exact .of_mnemonics ["seqz"] rfl (by decide)
    · exact .of_mnemonics ["snez"] rfl (by decide)
    · exact .of_mnemonics ["sltz"] rfl (by decide)
    · exact .of_mnemonics ["sgtz"] rfl (by decide)
    · exact .of_mnemonics ["sgtz", "xori"] rfl (by decide)
    · exact .of_mnemonics ["sltz", "xori"] rfl (by decide)
    · exact .nil
  unfold operation at h
  split at h
  · cases h; exact .of_mnemonics ["add"] rfl (by decide)
  · cases h; exact .of_mnemonics ["sub"] rfl (by decide)
  · cases h; exact .of_mnemonics ["mul"] rfl (by decide)
  · cases h; exact .of_mnemonics ["div"] rfl (by decide)
  · cases h; exact .of_mnemonics ["rem"] rfl (by decide)
  · cases h; exact .of_mnemonics ["snez", "snez", "and"] rfl (by decide)
  · cases h; exact .of_mnemonics ["or", "snez"] rfl (by decide)
  · split at h
    · cases h
      have hsub : Closed targets data [.op "sub" [t0, t0, t1]] :=
        .of_mnemonics ["sub"] rfl (by decide)
      exact hsub.append hcomparison
    · cases h

theorem closed_unaryOperation {loc : Location} {op : Operator} {code : List Line}
    (h : unaryOperation loc op = .ok code) : Closed targets data code := by
  unfold unaryOperation at h
  split at h
  · cases h; exact .of_mnemonics ["neg"] rfl (by decide)
  · cases h; exact .of_mnemonics ["neg"] rfl (by decide)
  · cases h; exact .of_mnemonics ["seqz"] rfl (by decide)
  · cases h

theorem closed_transfer (abi : Abi) (callee : String) (count : ℕ) :
    Closed targets data (transfer abi callee count) := by
  refine (Closed.append ?_ (.of_mnemonics ["jal"] rfl (by decide))).append (closed_push a0)
  induction (abi.registers.take count).reverse with
  | nil => exact .nil
  | cons r rs ih => exact (closed_pop (.reg r)).append ih

section

variable {abi : Abi} {scopes : Scopes}

mutual

theorem Seen.closed_expression (hseen : Seen data scopes) : ∀ {e : Expr} {code : List Line},
    expression abi scopes e = .ok code → Closed targets data code
  | .missing, _, h => by simp [expression] at h
  | .constant c, _, h => by
    obtain ⟨n, -, rfl⟩ := literal_eq_ok h
    exact .of_mnemonics ["li", "addi", "sw"] rfl (by decide)
  | .variable r, _, h => by
    obtain ⟨e, he, rfl⟩ := load_eq_ok h
    have hload : Closed targets data [.op "lw" [t0, .mem 0 "t0"]] :=
      .of_mnemonics ["lw"] rfl (by decide)
    exact (((closed_remark _).append (hseen.closed_loadAddress he t0)).append hload).append
      (closed_push t0)
  | .binary loc op left right, _, h => by
    obtain ⟨lc, rc, oc, hl, hr, ho, rfl⟩ := expression_binary h
    exact (((((hseen.closed_expression hl).append (hseen.closed_expression hr)).append
      (closed_pop t1)).append (closed_pop t0)).append (closed_operation ho)).append (closed_push t0)
  | .unary loc op operand, _, h => by
    obtain ⟨c, oc, he, ho, rfl⟩ := expression_unary h
    exact (((hseen.closed_expression he).append (closed_pop t0)).append
      (closed_unaryOperation ho)).append (closed_push t0)
  | .call loc callee args, _, h => by
    obtain ⟨c, -, hargs, rfl⟩ := expression_call h
    exact (hseen.closed_arguments hargs).append (closed_transfer abi callee _)

theorem Seen.closed_arguments (hseen : Seen data scopes) {callee : String} :
    ∀ {es : List Expr} {i : ℕ} {code : List Line},
    arguments abi scopes callee i es = .ok code → Closed targets data code
  | [], _, _, h => by
    rw [arguments] at h
    cases h
    exact .nil
  | e :: es, i, _, h => by
    obtain ⟨c, rest, he, hes, rfl⟩ := arguments_cons h
    exact ((closed_remark _).append (hseen.closed_expression he)).append
      (hseen.closed_arguments hes)

end

end

/-! ### Scopes -/

theorem closed_installEntries {abi : Abi} {loc : Location} : ∀ {es es' : List Entry} {params : ℕ}
    {code : List Line} {p q : Progress}, Made (installEntries abi loc params es) p (es', code) q →
    Closed targets data code
  | [], _, _, _, _, _, h => by
    obtain ⟨-, rfl, -⟩ := made_installEntries_nil h
    exact .nil
  | e :: es, _, _, _, _, _, h => by
    obtain ⟨-, fill, rest, es'', hfill, hrest, -, rfl⟩ := made_installEntries_cons h
    refine Closed.append ?_ (closed_installEntries hrest)
    rcases fillSlot_eq_ok hfill with ⟨-, _, _, -, -, rfl⟩ | ⟨-, _, -, rfl⟩ | ⟨-, -, rfl⟩
    · exact .of_mnemonics ["li", "sw"] rfl (by decide)
    · exact .of_mnemonics ["sw"] rfl (by decide)
    · exact .nil

/-- Entries get their slots and keep all else. -/
theorem unslotted_installEntries {abi : Abi} {loc : Location} : ∀ {es es' : List Entry} {params : ℕ}
    {code : List Line} {p q : Progress}, Made (installEntries abi loc params es) p (es', code) q →
    es'.map Entry.unslotted = es.map Entry.unslotted
  | [], _, _, _, _, _, h => by
    obtain ⟨rfl, -, -⟩ := made_installEntries_nil h
    rfl
  | e :: es, _, _, _, _, _, h => by
    obtain ⟨-, fill, rest, es'', -, hrest, rfl, -⟩ := made_installEntries_cons h
    exact congrArg (e.unslotted :: ·) (unslotted_installEntries hrest)

theorem unslottedScope_install {ctx : Context} {loc : Location} {t t' : Option Table}
    {code : List Line} {p q : Progress} (h : Made (install ctx loc t) p (t', code) q) :
    unslottedScope t' = unslottedScope t := by
  cases t with
  | none =>
    obtain ⟨rfl, -, -⟩ := made_install_none h
    rfl
  | some t =>
    obtain ⟨es, q', log, rfl, hes, -⟩ := made_install_some h
    exact congrArg (fun es => some (Table.mk es)) (unslotted_installEntries hes)

/-! ### Statements -/

theorem mem_freshLabels {m n : ℕ} {label : String} :
    label ∈ freshLabels m n ↔ ∃ k, m ≤ k ∧ k < n ∧ freshLabel k = label := by
  unfold freshLabels
  simp only [List.mem_map, List.mem_range'_1]
  constructor
  · rintro ⟨k, ⟨hle, hlt⟩, rfl⟩
    exact ⟨k, hle, by omega, rfl⟩
  · rintro ⟨k, hle, hlt, rfl⟩
    exact ⟨k, ⟨hle, by omega⟩, rfl⟩

/-- What a construct adds between two states: two labels for each of `n` branches and loops, and
code that is closed once these labels and the exit of the function are there, wherever they
stand. -/
structure Adds (exit : String) (data : List String) (n : ℕ) (code : List Line) (p q : Progress) :
    Prop where
  labels : q.labels = p.labels + 2 * n
  closed : ∀ targets, exit ∈ targets → freshLabels p.labels q.labels ⊆ targets →
    Closed targets data code

section

variable {exit : String} {p q r : Progress}

theorem Adds.of_closed {code : List Line}
    (h : ∀ targets, exit ∈ targets → Closed targets data code) :
    Adds exit data 0 code p p :=
  ⟨rfl, fun targets hexit _ => h targets hexit⟩

theorem Adds.append {m n : ℕ} {code code' : List Line} (h : Adds exit data m code p q)
    (h' : Adds exit data n code' q r) : Adds exit data (m + n) (code ++ code') p r := by
  have hcount := h.labels
  have hcount' := h'.labels
  refine ⟨by omega, fun targets hexit hsub => ?_⟩
  rw [← freshLabels_append (show p.labels ≤ q.labels by omega) (show q.labels ≤ r.labels by omega),
    List.append_subset] at hsub
  exact (h.closed targets hexit hsub.1).append (h'.closed targets hexit hsub.2)

/-- A construct makes two labels before those of its parts. They are pending while its parts are
made, so these are closed in any labels that have those made for them. -/
theorem Adds.construct {n : ℕ} {code inner : List Line}
    (h : Adds exit data n inner { p with labels := p.labels + 2 } q)
    (hcode : ∀ targets, freshLabel p.labels ∈ targets → freshLabel (p.labels + 1) ∈ targets →
      Closed targets data inner → Closed targets data code) :
    Adds exit data (1 + n) code p q := by
  have hcount : q.labels = p.labels + 2 + 2 * n := h.labels
  refine ⟨by omega, fun targets hexit hsub => ?_⟩
  refine hcode targets (hsub (mem_freshLabels.mpr ⟨_, le_refl _, by omega, rfl⟩))
    (hsub (mem_freshLabels.mpr ⟨_, Nat.le_succ _, by omega, rfl⟩))
    (h.closed targets hexit fun label hmem => ?_)
  obtain ⟨k, hle, hlt, rfl⟩ := mem_freshLabels.mp hmem
  have hfrom : p.labels + 2 ≤ k := hle
  exact hsub (mem_freshLabels.mpr ⟨k, by omega, hlt, rfl⟩)

/-- A scope without global entries refers to nothing, and leaves what is seen inside it as it is. -/
theorem Seen.install_adds (exit : String) {ctx : Context} {loc : Location} {scopes : Scopes}
    {t t' : Option Table} {code : List Line} (hseen : Seen data scopes)
    (h : Made (install ctx loc t) p (t', code) q)
    (ht : ∀ e ∈ Table.entriesOf t, e.isGlobal = false) :
    Adds exit data 0 code p q ∧ Seen data (scopes.enter t') := by
  have hlabels := (labelsOf_install h).2
  cases t with
  | none =>
    obtain ⟨rfl, rfl, -⟩ := made_install_none h
    exact ⟨⟨hlabels, fun _ _ _ => .nil⟩, hseen⟩
  | some t =>
    obtain ⟨es, q', log, rfl, hes, -⟩ := made_install_some h
    refine ⟨⟨hlabels, fun _ _ _ => closed_installEntries hes⟩,
      List.forall_mem_cons.mpr ⟨fun e he hlevel => ?_, hseen⟩⟩
    -- up to its slot, the entry is one of the table
    have hmem : e.unslotted ∈ t.entries.map Entry.unslotted := by
      rw [← unslotted_installEntries hes]
      exact List.mem_map_of_mem he
    obtain ⟨e', he', heq⟩ := List.mem_map.mp hmem
    have hlevel' : e'.unslotted.isGlobal = e.unslotted.isGlobal := congrArg Entry.isGlobal heq
    exact absurd ((ht e' he').symm.trans (hlevel'.trans hlevel)) (by decide)

end

section

variable {ctx : Context}

mutual

theorem made_statement_adds : ∀ {s : Stmt} {scopes : Scopes} {code : List Line} {p q : Progress},
    Made (statement ctx scopes s) p code q → (∀ e ∈ s.entries, e.isGlobal = false) →
    Seen data scopes →
    Adds ctx.exitLabel data s.constructs code p q
  | .block b, _, _, _, _, h, hlocal, hseen => made_block_adds h hlocal hseen
  | .print _ _, _, _, p, _, h, _, hseen => by
    obtain ⟨c, hc, rfl, rfl⟩ := made_print h
    refine .of_closed fun targets _ => ?_
    exact (((closed_remark _).append (hseen.closed_expression hc)).append
      (closed_pop a0)).append (.of_mnemonics ["jal"] rfl (by decide))
  | .read _ _, _, _, p, _, h, _, hseen => by
    obtain ⟨e, he, rfl, rfl⟩ := made_read h
    refine .of_closed fun targets _ => ?_
    exact (((((closed_remark _).append (hseen.closed_loadAddress he t0)).append
      (closed_push t0)).append (.of_mnemonics ["jal"] rfl (by decide))).append
      (closed_pop t0)).append (.of_mnemonics ["sw"] rfl (by decide))
  | .assign _ _ _, _, _, p, _, h, _, hseen => by
    obtain ⟨e, c, he, hc, rfl, rfl⟩ := made_assign h
    refine .of_closed fun targets _ => ?_
    exact ((((((closed_remark _).append (hseen.closed_loadAddress he t0)).append
      (closed_push t0)).append (hseen.closed_expression hc)).append (closed_pop t1)).append
      (closed_pop t0)).append (.of_mnemonics ["sw"] rfl (by decide))
  | .branch _ _ yes no, _, _, p, _, h, hlocal, hseen => by
    obtain ⟨test, yesCode, noCode, p', p'', htest, rfl, hyes, hno, rfl⟩ := made_branch h
    rw [Stmt.entries, List.forall_mem_append] at hlocal
    have hparts := (made_optionalBlock_adds hyes hlocal.1 hseen).append
      (made_optionalBlock_adds hno hlocal.2 hseen)
    refine hparts.construct fun targets ha hb hinner => ?_
    rw [closed_append] at hinner
    exact .branch ha hb (hseen.closed_expression htest) hinner.1 hinner.2
  | .loop _ _ body, _, _, p, _, h, hlocal, hseen => by
    obtain ⟨test, bodyCode, p', htest, rfl, hbody, rfl⟩ := made_loop h
    refine (made_optionalBlock_adds hbody hlocal hseen).construct fun targets ha hb hinner => ?_
    exact .loop ha hb (hseen.closed_expression htest) hinner
  | .count _ scope _ _ _ body, _, _, p, _, h, hlocal, hseen => by
    obtain ⟨lo, hi, scope', fill, e, bodyCode, p', p'', -, hscope, he, rfl, hbody, rfl⟩ :=
      made_count h
    rw [Stmt.entries, List.forall_mem_append] at hlocal
    have hinstall := hseen.install_adds ctx.exitLabel hscope hlocal.1
    have hparts := made_optionalBlock_adds hbody hlocal.2 hinstall.2
    rw [Stmt.constructs, ← Nat.zero_add (1 + _)]
    refine hinstall.1.append (hparts.construct fun targets ha hb hinner => ?_)
    exact .count ha hb (hinstall.2.closed_loadAddress he t0) hinner _ lo hi
  | .ret _ _, _, _, p, _, h, _, hseen => by
    obtain ⟨c, hc, rfl, rfl⟩ := made_ret h
    refine .of_closed fun targets hexit => ?_
    exact (((closed_remark _).append (hseen.closed_expression hc)).append
      (closed_pop a0)).append (closed_jump "j" [] (by decide) hexit)
  | .call _ _ _, _, _, p, _, h, _, hseen => by
    obtain ⟨c, hc, rfl, rfl⟩ := made_call h
    refine .of_closed fun targets _ => ?_
    exact (hseen.closed_expression hc).append (.of_mnemonics ["addi"] rfl (by decide))

theorem made_block_adds : ∀ {b : Block} {scopes : Scopes} {code : List Line} {p q : Progress},
    Made (block ctx scopes b) p code q → (∀ e ∈ b.entries, e.isGlobal = false) → Seen data scopes →
    Adds ctx.exitLabel data b.constructs code p q
  | .mk _ _ _ _, _, _, _, _, h, hlocal, hseen => by
    obtain ⟨scope', fill, bodyCode, p', hscope, hbody, rfl⟩ := made_block h
    rw [Block.entries, List.forall_mem_append] at hlocal
    have hinstall := hseen.install_adds ctx.exitLabel hscope hlocal.1
    rw [Block.constructs, ← Nat.zero_add (statementsConstructs _)]
    exact hinstall.1.append (made_statements_adds hbody hlocal.2 hinstall.2)

theorem made_optionalBlock_adds :
    ∀ {b : Option Block} {scopes : Scopes} {code : List Line} {p q : Progress},
    Made (optionalBlock ctx scopes b) p code q → (∀ e ∈ blockEntries b, e.isGlobal = false) →
    Seen data scopes →
    Adds ctx.exitLabel data (blockConstructs b) code p q
  | none, _, _, _, _, h, _, _ => by
    obtain ⟨rfl, rfl⟩ := made_pure_iff.mp h
    exact .of_closed fun _ _ => .nil
  | some b, _, _, _, _, h, hlocal, hseen => made_block_adds h hlocal hseen

theorem made_statements_adds :
    ∀ {ss : List Stmt} {scopes : Scopes} {code : List Line} {p q : Progress},
    Made (statements ctx scopes ss) p code q → (∀ e ∈ statementsEntries ss, e.isGlobal = false) →
    Seen data scopes → Adds ctx.exitLabel data (statementsConstructs ss) code p q
  | [], _, _, _, _, h, _, _ => by
    obtain ⟨rfl, rfl⟩ := made_pure_iff.mp h
    exact .of_closed fun _ _ => .nil
  | s :: ss, _, _, _, _, h, hlocal, hseen => by
    obtain ⟨first, rest, p', hs, hss, rfl⟩ := made_statements_cons h
    rw [statementsEntries, List.forall_mem_append] at hlocal
    exact (made_statement_adds hs hlocal.1 hseen).append (made_statements_adds hss hlocal.2 hseen)

end

end

/-! ### Functions and programs -/

theorem LoweredFunction.adds {abi : Abi} {globals : Scopes} {f : RvBackend.Function}
    {g : Asm.Function} {p q : Progress} (h : LoweredFunction abi globals f p g q)
    (hlocal : ∀ e ∈ f.entries, e.isGlobal = false) (hseen : Seen data globals) :
    q.labels = p.labels + 2 * f.constructs ∧ Closed (labelsOf g.lines) data g.lines := by
  obtain ⟨inner, hlabels, hmakes⟩ := h.labels
  have hinner : labelsOf g.lines = labelsOf inner ++ [exitLabel f.name] := (List.cons.inj hlabels).2
  obtain ⟨scope, fill, body, size, log, log', p', p'', hscope, hbody, -, rfl, -, hlines⟩ := h
  rw [Function.entries, List.forall_mem_append] at hlocal
  obtain ⟨hfill, henter⟩ := hseen.install_adds (exitLabel f.name) hscope hlocal.1
  have hadds := hfill.append (made_optionalBlock_adds hbody hlocal.2 henter)
  have hcount : p''.labels = p.labels + 2 * f.constructs :=
    hadds.labels.trans (by rw [Nat.zero_add]; rfl)
  refine ⟨hcount, ?_⟩
  have hclosed : Closed (labelsOf g.lines) data (fill ++ body) := by
    rw [hinner]
    refine hadds.closed _ (List.mem_append_right _ (List.mem_singleton.mpr rfl)) fun label hmem =>
      ?_
    exact List.mem_append_left _ (hmakes.perm.mem_iff.mpr hmem)
  have hframe : ∀ targets, Closed targets data (fill ++ body) →
      Closed targets data (frameCode ⟨abi, f.name⟩ size (fill ++ body)) := fun targets hcode =>
    (Closed.append (.of_mnemonics ["addi", "sw", "sw", "addi"] rfl (by decide)) hcode).append
      (.of_mnemonics ["lw", "lw", "addi", "jr"] rfl (by decide))
  have hall := hframe _ hclosed
  rwa [← hlines] at hall

theorem LoweredAll.adds {abi : Abi} {globals : Scopes} {fs : List RvBackend.Function}
    {gs : List Asm.Function} {p q : Progress} (h : LoweredAll abi globals fs p gs q)
    (hlocal : ∀ f ∈ fs, ∀ e ∈ f.entries, e.isGlobal = false) (hseen : Seen data globals) :
    q.labels = p.labels + 2 * (fs.map Function.constructs).sum ∧
      ∀ g ∈ gs, Closed (labelsOf g.lines) data g.lines := by
  induction h with
  | nil => exact ⟨rfl, fun _ hg => absurd hg List.not_mem_nil⟩
  | cons head _ ih =>
    obtain ⟨hhead, htail⟩ := List.forall_mem_cons.mp hlocal
    obtain ⟨hcount, hclosed⟩ := head.adds hhead hseen
    obtain ⟨hcount', hclosed'⟩ := ih htail
    refine ⟨?_, List.forall_mem_cons.mpr ⟨hclosed, hclosed'⟩⟩
    rw [List.map_cons, List.sum_cons]
    omega

/-- The label lines of functions besides their names. -/
theorem perm_labelsOf_codeLines :
    ∀ gs : List Asm.Function, (labelsOf (gs.flatMap Asm.Function.codeLines)).Perm
    (gs.map (·.name) ++ labelsOf (gs.flatMap (·.lines)))
  | [] => .nil
  | g :: gs => by
    have hrest := perm_labelsOf_codeLines gs
    have hhead : labelsOf g.codeLines = g.name :: labelsOf g.lines := rfl
    rw [List.flatMap_cons, List.flatMap_cons, labelsOf_append, labelsOf_append, hhead,
      List.map_cons, List.cons_append, List.cons_append]
    refine List.Perm.cons _ ((hrest.append_left _).trans ?_)
    rw [← List.append_assoc, ← List.append_assoc]
    exact List.perm_append_comm.append_right _

/-- The label lines of a lowered program: two for each branch and loop, and one behind each
function. -/
theorem LoweredProgram.labels {abi : Abi} {p : RvBackend.Program} {code : Asm.Program}
    {q : Progress} (h : LoweredProgram abi p code q) (hcount : q.labels = 2 * p.constructs) :
    (labelsOf (code.functions.flatMap (·.lines))).Perm
      (((routines abi p).map fun f => exitLabel f.name) ++ freshLabels 0 (2 * p.constructs)) := by
  have hall := (perm_labelsOf_codeLines code.functions).symm.trans h.functions.labels.2
  rw [hcount, h.functions.names, List.append_assoc, List.perm_append_left_iff] at hall
  exact hall

/-- The names that labels could clash with, and the levels that tell globals from locals. -/
structure Separable (abi : Abi) (p : RvBackend.Program) : Prop where
  functions : ∀ f ∈ p.functions, IsIdentifier f.name
  globals : ∀ e ∈ Table.entriesOf p.scope, IsIdentifier e.name
  entry : IsIdentifier abi.entry
  distinct : (p.functions.map (·.name)).Nodup
  locals : ∀ f ∈ routines abi p, ∀ e ∈ f.entries, e.isGlobal = false

/-- What the label lines of a program are, and what its code refers to. -/
structure Allocated (abi : Abi) (p : RvBackend.Program) (code : Asm.Program) : Prop where
  /-- The label lines are the exits of the functions and two numbered labels for each branch and
  loop. -/
  labels : (labelsOf (code.functions.flatMap (·.lines))).Perm
    (((routines abi p).map fun f => exitLabel f.name) ++ freshLabels 0 (2 * p.constructs))
  distinct : (labelsOf (code.functions.flatMap (·.lines))).Nodup
  apart : ∀ label ∈ labelsOf (code.functions.flatMap (·.lines)),
    label ∉ code.functions.map (·.name) ∧ label ∉ code.dataNames
  closed : ∀ g ∈ code.functions, Closed (labelsOf g.lines) code.dataNames g.lines

theorem LoweredProgram.seen {abi : Abi} {p : RvBackend.Program} {code : Asm.Program} {q : Progress}
    (h : LoweredProgram abi p code q) : Seen code.dataNames (Scopes.enter [] p.scope) := by
  intro t ht e he _
  have hmem : e ∈ Table.entriesOf p.scope := by
    cases hscope : p.scope with
    | none => simp [Scopes.enter, hscope] at ht
    | some t' =>
      rw [hscope] at ht
      obtain rfl := List.mem_singleton.mp ht
      exact he
  exact h.data.1.mem_iff.mpr (List.mem_map_of_mem hmem)

theorem sum_constructs_routines (abi : Abi) (p : RvBackend.Program) :
    ((routines abi p).map Function.constructs).sum = p.constructs := by
  rw [routines, List.map_append, List.sum_append]
  rfl

/-- No function has the name of the entry, which is reserved. -/
theorem LoweredProgram.nodup_routines {abi : Abi} {p : RvBackend.Program} {code : Asm.Program}
    {q : Progress} (h : LoweredProgram abi p code q)
    (hdistinct : (p.functions.map (·.name)).Nodup) :
    ((routines abi p).map (·.name)).Nodup := by
  rw [routines, List.map_append]
  refine List.Nodup.append hdistinct (List.nodup_singleton _) fun name hmem hentry => ?_
  obtain ⟨f, hf, rfl⟩ := List.mem_map.mp hmem
  exact ((checkNames_eq_ok_iff.mp h.names).1 f hf).2.2.1 (List.mem_singleton.mp hentry)

theorem Separable.routines {abi : Abi} {p : RvBackend.Program} (h : Separable abi p) :
    ∀ name ∈ (routines abi p).map (·.name), IsIdentifier name := by
  rw [Lower.routines, List.map_append, List.forall_mem_append, List.forall_mem_map]
  exact ⟨h.functions, List.forall_mem_singleton.mpr h.entry⟩

/-- **Labels are allocated once, and code refers to nothing else**: a program gets two numbered
labels for each of its branches and loops and one label behind each function, all different from
each other and from the names of functions and data; a jump goes to a label of its own function, and
an address is that of data of the program. -/
theorem labels_allocated_and_closed {abi : Abi} {p : RvBackend.Program} {code : Asm.Program}
    (hp : Separable abi p) (hcode : (lowerProgram abi p).code = .ok code) :
    Allocated abi p code := by
  obtain ⟨q, hlow, -⟩ := loweredProgram_of_code hcode
  obtain ⟨hcount, hclosed⟩ := hlow.functions.adds hp.locals hlow.seen
  rw [sum_constructs_routines] at hcount
  have hlabels := hlow.labels (hcount.trans (Nat.zero_add _))
  refine ⟨hlabels, ?_, fun label hmem => ?_, hclosed⟩
  · have hnodup : ([] ++ labelsOf (code.functions.flatMap Asm.Function.codeLines)).Nodup :=
      hlow.functions.labels_nodup (hlow.nodup_routines hp.distinct)
        fun name hmem => head_ne_dot_of_isIdentifier (hp.routines name hmem)
    exact ((perm_labelsOf_codeLines code.functions).nodup_iff.mp hnodup).of_append_right
  · -- labels begin with a point, and identifiers do not
    have hdot := head_of_made (hlabels.mem_iff.mp hmem)
    constructor
    · intro hname
      rw [hlow.functions.names] at hname
      exact head_ne_dot_of_isIdentifier (hp.routines label hname) hdot
    · intro hname
      obtain ⟨e, he, rfl⟩ := List.mem_map.mp (hlow.data.1.mem_iff.mp hname)
      exact head_ne_dot_of_isIdentifier (hp.globals e he) hdot

/-- A branch in a loop of a function, and a loop around a call of the function. -/
def countdown : RvBackend.Program where
  name := "countdown"
  file := "countdown.src"
  scope := some ⟨[{ name := "total", kind := .variable, type := .integer, level := 0 },
    { name := "stride", kind := .constant, type := .integer, level := 0, value := some 2 }]⟩
  functions := [{
    name := "down"
    type := some .integer
    scope := some ⟨[{ name := "n", kind := .parameter, type := .integer, level := 1 }]⟩
    body := some (.mk {} none [] [
      .loop {} (.binary {} .greater (.variable ⟨{}, "n"⟩) (.constant ⟨{}, .integer, 0⟩))
        (some
          (.mk {} none []
            [.branch {} (.binary {} .greater (.variable ⟨{}, "n"⟩) (.variable ⟨{}, "stride"⟩))
              (some (.mk {} none [] [.assign {} ⟨{}, "n"⟩
                (.binary {} .minus (.variable ⟨{}, "n"⟩) (.variable ⟨{}, "stride"⟩))]))
              (some (.mk {} none [] [.ret {} (.variable ⟨{}, "n"⟩)]))])),
      .ret {} (.constant ⟨{}, .integer, 0⟩)]) }]
  body := some (.mk {} none [] [.count {}
    (some ⟨[{ name := "i", kind := .variable, type := .integer, level := 1 }]⟩) "i"
    (.constant ⟨{}, .integer, 0⟩) (.constant ⟨{}, .integer, 5⟩)
    (some (.mk {} none [] [.assign {} ⟨{}, "total"⟩
      (.binary {} .plus (.variable ⟨{}, "total"⟩) (.call {} "down" [.variable ⟨{}, "i"⟩]))])),
    .print {} (.variable ⟨{}, "total"⟩)])

theorem countdown_allocated :
    countdown.constructs = 3 ∧ ∃ code, (lowerProgram {} countdown).code = .ok code ∧
    Allocated {} countdown code := by
  obtain ⟨code, hcode⟩ :=
    exists_ok_of_isOk (x := (lowerProgram {} countdown).code) (by decide +kernel)
  have hp : Separable {} countdown := by constructor <;> decide +kernel
  exact ⟨by decide +kernel, code, hcode, labels_allocated_and_closed hp hcode⟩

end Lower

end RvBackend
