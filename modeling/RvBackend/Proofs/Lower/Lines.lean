import RvBackend.Proofs.Lower.Slots
import RvBackend.Proofs.Text.Decimal

/-! # The lines that generation makes

Every line of generated code is a comment, a label or an instruction, and the operands of its
instructions are of a few forms only. `LineForm` lists the forms; what is left open is which names
may be symbols, which may stand in comments and which numbers may be offsets and short constants, so
that one walk through the generator serves every use.

* `Names` holds what is assumed of the names and numbers of a program.
* `lineForm_expression`, `lineForm_statement`, `lineForm_function`: all lines have one of the
  forms. -/

namespace RvBackend

/-! ### The callees of a function -/

mutual

/-- The names of the functions that an expression calls. -/
def Expr.callees : Expr → List String
  | .missing => []
  | .constant _ => []
  | .variable _ => []
  | .binary _ _ left right => left.callees ++ right.callees
  | .unary _ _ operand => operand.callees
  | .call _ callee args => callee :: argumentsCallees args

/-- The names of the functions that arguments call. -/
def argumentsCallees : List Expr → List String
  | [] => []
  | e :: es => e.callees ++ argumentsCallees es

end

mutual

/-- The names of the functions that a statement calls. -/
def Stmt.callees : Stmt → List String
  | .block b => b.callees
  | .print _ target => target.callees
  | .read .. => []
  | .assign _ _ value => value.callees
  | .branch _ condition yes no => condition.callees ++ (blockCallees yes ++ blockCallees no)
  | .loop _ condition body => condition.callees ++ blockCallees body
  | .count _ _ _ _ _ body => blockCallees body
  | .ret _ value => value.callees
  | .call _ callee args => callee :: argumentsCallees args

/-- The names of the functions that a block calls. -/
def Block.callees : Block → List String
  | .mk _ _ _ statements => statementsCallees statements

/-- The names of the functions that a block calls, if it is there. -/
def blockCallees : Option Block → List String
  | none => []
  | some b => b.callees

/-- The names of the functions that statements call. -/
def statementsCallees : List Stmt → List String
  | [] => []
  | s :: ss => s.callees ++ statementsCallees ss

end

namespace Lower

open Asm

/-! ### Forms of lines -/

/-- The registers that generated code uses besides those of the arguments. -/
def workRegisters : List String := ["ra", "sp", "s0", "t0", "t1", "a0"]

/-- The mnemonics of generated code. -/
def mnemonics : List String :=
  ["addi", "sw", "lw", "li", "la", "add", "sub", "mul", "div", "rem", "and", "or", "xori", "seqz",
    "snez", "sltz", "sgtz", "neg", "jal", "j", "jr", "beqz", "beq"]

/-- Which names may be symbols, which names may stand in comments, and which numbers may be offsets
and constants of 12 bits. -/
structure Names where
  isSymbol : String → Prop
  isText : String → Prop
  isShort : Int64 → Prop
  /-- Numbers of 12 bits may always be there. -/
  short : ∀ n : Int64, -2048 ≤ n.toInt → n.toInt ≤ 2047 → isShort n

/-- The names that are given, and numbers of 12 bits. -/
def Names.narrow (isSymbol isText : String → Prop) : Names where
  isSymbol := isSymbol
  isText := isText
  isShort n := -2048 ≤ n.toInt ∧ n.toInt ≤ 2047
  short _ h h' := ⟨h, h'⟩

/-- A label: one that generation made, the exit of a function, or a symbol. -/
inductive LabelForm (N : Names) : String → Prop
  | fresh (n : ℕ) : LabelForm N (".L" ++ Text.decimal ((n : ℤ) + 1))
  | exit {f : String} (hf : N.isSymbol f) : LabelForm N (".L" ++ f ++ "_exit")
  | symbol {name : String} (h : N.isSymbol name) : LabelForm N name

/-- An operand of an instruction of generated code. -/
inductive OperandForm (abi : Abi) (N : Names) (mnemonic : String) : Operand → Prop
  | work {r : String} (h : r ∈ workRegisters) : OperandForm abi N mnemonic (.reg r)
  | argument {r : String} (h : r ∈ abi.registers) : OperandForm abi N mnemonic (.reg r)
  | mem {offset : Int64} {base : String} (h : N.isShort offset) (hb : base ∈ workRegisters) :
      OperandForm abi N mnemonic (.mem offset base)
  | label {name : String} (h : LabelForm N name) : OperandForm abi N mnemonic (.label name)
  | short {n : Int64} (h : N.isShort n) (hm : mnemonic ≠ "li") : OperandForm abi N mnemonic (.imm n)
  | word {n : Int64} (h : -2 ^ 31 ≤ n.toInt ∧ n.toInt < 2 ^ 31) (hm : mnemonic = "li") :
      OperandForm abi N mnemonic (.imm n)

/-- A line of generated code. -/
inductive LineForm (abi : Abi) (N : Names) : Line → Prop
  | remark {text : String} (h : '\n' ∈ text.toList → ∃ name, N.isText name ∧ '\n' ∈ name.toList) :
      LineForm abi N (.remark text)
  | fresh (n : ℕ) : LineForm abi N (.label (".L" ++ Text.decimal ((n : ℤ) + 1)))
  | exit {f : String} (hf : N.isSymbol f) : LineForm abi N (.label (".L" ++ f ++ "_exit"))
  | op {mnemonic : String} {operands : List Operand} (hm : mnemonic ∈ mnemonics)
      (ho : ∀ o ∈ operands, OperandForm abi N mnemonic o) : LineForm abi N (.op mnemonic operands)

/-- All lines have one of the forms. -/
def Formed (abi : Abi) (N : Names) (code : List Line) : Prop := ∀ l ∈ code, LineForm abi N l

variable {abi : Abi} {N : Names}

theorem Formed.nil : Formed abi N [] := fun _ h => absurd h List.not_mem_nil

theorem Formed.cons {l : Line} {code : List Line} (h : LineForm abi N l) (h' : Formed abi N code) :
    Formed abi N (l :: code) := List.forall_mem_cons.mpr ⟨h, h'⟩

theorem Formed.append {code code' : List Line} (h : Formed abi N code) (h' : Formed abi N code') :
    Formed abi N (code ++ code') := List.forall_mem_append.mpr ⟨h, h'⟩

theorem Formed.single {l : Line} (h : LineForm abi N l) : Formed abi N [l] := .cons h .nil

/-! ### Comments -/

theorem newline_notMem_decimal (n : ℤ) : '\n' ∉ (Text.decimal n).toList := by
  rw [Text.decimal, String.toList_ofList]
  exact fun h => absurd (Text.mem_decimalChars h) (by decide)

/-- A comment made of plain pieces and of names breaks its line only if a name does. -/
theorem LineForm.remark_append {before name after : String} (hname : N.isText name)
    (hb : '\n' ∉ before.toList) (ha : '\n' ∉ after.toList) :
    LineForm abi N (.remark (before ++ name ++ after)) := by
  refine .remark fun h => ⟨name, hname, ?_⟩
  rw [String.toList_append, String.toList_append, List.mem_append, List.mem_append] at h
  rcases h with (h | h) | h
  · exact absurd h hb
  · exact h
  · exact absurd h ha

theorem LineForm.remark_name {before name : String} (hname : N.isText name)
    (hb : '\n' ∉ before.toList) : LineForm abi N (.remark (before ++ name)) := by
  refine .remark fun h => ⟨name, hname, ?_⟩
  rw [String.toList_append, List.mem_append] at h
  exact h.resolve_left hb

theorem LineForm.remark_plain {text : String} (h : '\n' ∉ text.toList) :
    LineForm abi N (.remark text) := .remark fun h' => absurd h' h

/-! ### Instructions -/

theorem OperandForm.t0 {m : String} : OperandForm abi N m t0 := .work (by decide)
theorem OperandForm.t1 {m : String} : OperandForm abi N m t1 := .work (by decide)
theorem OperandForm.a0 {m : String} : OperandForm abi N m a0 := .work (by decide)
theorem OperandForm.sp {m : String} : OperandForm abi N m sp := .work (by decide)
theorem OperandForm.ra {m : String} : OperandForm abi N m ra := .work (by decide)
theorem OperandForm.s0 {m : String} : OperandForm abi N m s0 := .work (by decide)

theorem LineForm.op_two {m : String} {o o' : Operand} (hm : m ∈ mnemonics)
    (h : OperandForm abi N m o) (h' : OperandForm abi N m o') : LineForm abi N (.op m [o, o']) :=
  .op hm (List.forall_mem_cons.mpr ⟨h, List.forall_mem_singleton.mpr h'⟩)

theorem LineForm.op_three {m : String} {o o' o'' : Operand} (hm : m ∈ mnemonics)
    (h : OperandForm abi N m o) (h' : OperandForm abi N m o') (h'' : OperandForm abi N m o'') :
    LineForm abi N (.op m [o, o', o'']) :=
  .op hm
    (List.forall_mem_cons.mpr ⟨h, List.forall_mem_cons.mpr ⟨h', List.forall_mem_singleton.mpr h''⟩⟩)

theorem LineForm.load_word {m base : String} {r : Operand} (hm : m = "lw" ∨ m = "sw")
    (hr : OperandForm abi N m r) (hb : base ∈ workRegisters) :
    LineForm abi N (.op m [r, .mem 0 base]) := by
  refine .op_two ?_ hr (.mem (N.short _ (by decide) (by decide)) hb)
  rcases hm with rfl | rfl <;> decide

theorem LineForm.jump_link {name : String} (h : N.isSymbol name) :
    LineForm abi N (.op "jal" [ra, .label name]) :=
  .op_two (by decide) .ra (.label (.symbol h))

theorem LineForm.load_immediate {r : Operand} {n : Int64} (hr : OperandForm abi N "li" r)
    (h : -2 ^ 31 ≤ n.toInt ∧ n.toInt < 2 ^ 31) : LineForm abi N (.op "li" [r, .imm n]) :=
  .op_two (by decide) hr (.word h rfl)

theorem formed_push {r : Operand} (hr : OperandForm abi N "sw" r) : Formed abi N (push r) :=
  .cons (.op_three (by decide) .sp .sp (.short (N.short _ (by decide) (by decide)) (by decide)))
    (.single (.load_word (.inr rfl) hr (by decide)))

theorem formed_discard : Formed abi N discard :=
  .single (.op_three (by decide) .sp .sp (.short (N.short _ (by decide) (by decide)) (by decide)))

theorem formed_pop {r : Operand} (hr : OperandForm abi N "lw" r) : Formed abi N (pop r) :=
  .cons (.load_word (.inl rfl) hr (by decide)) formed_discard

/-! ### Entries -/

/-- An entry that code may refer to. -/
structure Names.AdmitsEntry (N : Names) (e : Entry) : Prop where
  text : N.isText e.name
  symbol : e.isGlobal → N.isSymbol e.name
  short : N.isShort e.slot

/-- Scopes whose entries code may refer to. -/
def Names.Sees (N : Names) (scopes : Scopes) : Prop :=
  ∀ t ∈ scopes, ∀ e ∈ t.entries, N.AdmitsEntry e

theorem find?_mem {scopes : Scopes} {name : String} {e : Entry} (h : scopes.find? name = some e) :
    e.name = name ∧ ∃ t ∈ scopes, e ∈ t.entries := by
  unfold Scopes.find? at h
  obtain ⟨t, ht, he⟩ := List.exists_of_findSome?_eq_some h
  unfold Table.find? at he
  have hmem := List.mem_of_find?_eq_some he
  have hname := List.find?_some he
  exact ⟨by simpa using hname, t, ht, List.mem_reverse.mp hmem⟩

theorem Names.Sees.resolve {scopes : Scopes} {loc : Location} {name : String} {e : Entry}
    (hsees : N.Sees scopes) (h : Lower.resolve scopes loc name = .ok e) :
    N.AdmitsEntry e ∧ N.isText name := by
  obtain ⟨rfl, t, ht, he⟩ := find?_mem (resolve_eq_ok h).1
  exact ⟨hsees t ht e he, (hsees t ht e he).text⟩

theorem Names.Sees.enter {scopes : Scopes} {t : Option Table} (hsees : N.Sees scopes)
    (ht : ∀ e ∈ Table.entriesOf t, N.AdmitsEntry e) : N.Sees (scopes.enter t) := by
  cases t with
  | none => exact hsees
  | some t => exact List.forall_mem_cons.mpr ⟨ht, hsees⟩

theorem formed_loadAddress {e : Entry} (he : N.AdmitsEntry e) :
    Formed abi N (loadAddress t0 e) := by
  unfold loadAddress
  split
  · next hg => exact .single (.op_two (by decide) .t0 (.label (.symbol (he.symbol hg))))
  · exact .single (.op_three (by decide) .t0 .s0 (.short he.short (by decide)))

/-! ### Expressions -/

theorem formed_comparison (op : Operator) : Formed abi N (comparison op) := by
  have hflip : LineForm abi N (.op "xori" [t0, t0, .imm 1]) :=
    .op_three (by decide) .t0 .t0 (.short (N.short _ (by decide) (by decide)) (by decide))
  unfold comparison
  split
  · exact .single (.op_two (by decide) .t0 .t0)
  · exact .single (.op_two (by decide) .t0 .t0)
  · exact .single (.op_two (by decide) .t0 .t0)
  · exact .single (.op_two (by decide) .t0 .t0)
  · exact .cons (.op_two (by decide) .t0 .t0) (.single hflip)
  · exact .cons (.op_two (by decide) .t0 .t0) (.single hflip)
  · exact .nil

theorem formed_operation {loc : Location} {op : Operator} {code : List Line}
    (h : operation loc op = .ok code) : Formed abi N code := by
  have hthree : ∀ m ∈ mnemonics, LineForm abi N (.op m [t0, t0, t1]) :=
    fun m hm => .op_three hm .t0 .t0 .t1
  have htruth : LineForm abi N (.op "snez" [t0, t0]) := .op_two (by decide) .t0 .t0
  unfold operation at h
  split at h
  · cases h; exact .single (hthree _ (by decide))
  · cases h; exact .single (hthree _ (by decide))
  · cases h; exact .single (hthree _ (by decide))
  · cases h; exact .single (hthree _ (by decide))
  · cases h; exact .single (hthree _ (by decide))
  · cases h
    exact .cons htruth (.cons (.op_two (by decide) .t1 .t1) (.single (hthree _ (by decide))))
  · cases h; exact .cons (hthree _ (by decide)) (.single htruth)
  · split at h
    · cases h; exact .cons (hthree _ (by decide)) (formed_comparison op)
    · cases h

theorem formed_unaryOperation {loc : Location} {op : Operator} {code : List Line}
    (h : unaryOperation loc op = .ok code) : Formed abi N code := by
  unfold unaryOperation at h
  split at h
  · cases h; exact .single (.op_two (by decide) .t0 .t0)
  · cases h; exact .single (.op_two (by decide) .t0 .t0)
  · cases h; exact .single (.op_two (by decide) .t0 .t0)
  · cases h

theorem formed_transfer {callee : String} (h : N.isSymbol callee) (count : ℕ) :
    Formed abi N (transfer abi callee count) := by
  refine ((?_ : Formed abi N _).append (.single (.jump_link h))).append (formed_push .a0)
  intro l hl
  obtain ⟨r, hr, hl⟩ := List.mem_flatMap.mp hl
  have hmem : r ∈ abi.registers := List.mem_of_mem_take (List.mem_reverse.mp hr)
  exact formed_pop (.argument hmem) l hl

mutual

theorem formed_expression {scopes : Scopes} (hsees : N.Sees scopes) :
    ∀ {e : Expr} {code : List Line},
    expression abi scopes e = .ok code → (∀ c ∈ e.callees, N.isSymbol c ∧ N.isText c) →
      Formed abi N code
  | .missing, _, h, _ => by simp [expression] at h
  | .constant c, _, h, _ => by
    obtain ⟨n, hn, rfl⟩ := literal_eq_ok h
    obtain ⟨hval, hrange⟩ := toInt_immediate hn
    exact .cons (.load_immediate .t0 (hval ▸ hrange)) (formed_push .t0)
  | .variable r, _, h, _ => by
    obtain ⟨e, he, rfl⟩ := load_eq_ok h
    obtain ⟨hentry, hname⟩ := hsees.resolve he
    exact (((Formed.single (.remark_name hname (by decide))).append
      (formed_loadAddress hentry)).append (.single (.load_word (.inl rfl) .t0 (by decide)))).append
      (formed_push .t0)
  | .binary loc op left right, _, h, hc => by
    obtain ⟨lc, rc, oc, hl, hr, ho, rfl⟩ := expression_binary h
    rw [Expr.callees, List.forall_mem_append] at hc
    exact (((((formed_expression hsees hl hc.1).append (formed_expression hsees hr hc.2)).append
      (formed_pop .t1)).append (formed_pop .t0)).append (formed_operation ho)).append
      (formed_push .t0)
  | .unary loc op operand, _, h, hc => by
    obtain ⟨c, oc, he, ho, rfl⟩ := expression_unary h
    exact (((formed_expression hsees he hc).append (formed_pop .t0)).append
      (formed_unaryOperation ho)).append (formed_push .t0)
  | .call loc callee args, _, h, hc => by
    obtain ⟨c, -, hargs, rfl⟩ := expression_call h
    rw [Expr.callees, List.forall_mem_cons] at hc
    exact (formed_arguments hsees hc.1.2 hargs hc.2).append (formed_transfer hc.1.1 _)

theorem formed_arguments {scopes : Scopes} (hsees : N.Sees scopes) {callee : String}
    (hcallee : N.isText callee) : ∀ {es : List Expr} {i : ℕ} {code : List Line},
    arguments abi scopes callee i es = .ok code →
      (∀ c ∈ argumentsCallees es, N.isSymbol c ∧ N.isText c) → Formed abi N code
  | [], _, _, h, _ => by
    rw [arguments] at h
    cases h
    exact .nil
  | e :: es, i, _, h, hc => by
    obtain ⟨c, rest, he, hes, rfl⟩ := arguments_cons h
    rw [argumentsCallees, List.forall_mem_append] at hc
    refine ((Formed.single ?_).append (formed_expression hsees he hc.1)).append
      (formed_arguments hsees hcallee hes hc.2)
    refine .remark_name hcallee ?_
    simp only [String.toList_append, List.mem_append, not_or]
    exact ⟨⟨by decide, newline_notMem_decimal _⟩, by decide⟩

end

/-! ### Statements -/

/-- What is assumed of the entries of a construct, of its callees and of the slots that it is
given. -/
structure Names.Admits (N : Names) (abi : Abi) (entries : List Entry) (callees : List String)
    (cursor : Int64) : Prop where
  text : ∀ e ∈ entries, N.isText e.name
  symbol : ∀ e ∈ entries, e.isGlobal → N.isSymbol e.name
  callees : ∀ c ∈ callees, N.isSymbol c ∧ N.isText c
  short : ∀ slot ∈ nextSlots abi cursor entries.length, N.isShort slot

theorem Names.Admits.left {es es' : List Entry} {cs cs' : List String} {cursor : Int64}
    (h : N.Admits abi (es ++ es') (cs ++ cs') cursor) : N.Admits abi es cs cursor := by
  refine ⟨?_, ?_, ?_, ?_⟩
  · exact fun e he => h.text e (List.mem_append_left _ he)
  · exact fun e he => h.symbol e (List.mem_append_left _ he)
  · exact fun c hc => h.callees c (List.mem_append_left _ hc)
  · intro slot hslot
    refine h.short slot ?_
    rw [List.length_append, nextSlots_add]
    exact List.mem_append_left _ hslot

theorem Names.Admits.right {es es' : List Entry} {cs cs' : List String} {cursor : Int64}
    (h : N.Admits abi (es ++ es') (cs ++ cs') cursor) :
    N.Admits abi es' cs' (lowered abi cursor es.length) := by
  refine ⟨?_, ?_, ?_, ?_⟩
  · exact fun e he => h.text e (List.mem_append_right _ he)
  · exact fun e he => h.symbol e (List.mem_append_right _ he)
  · exact fun c hc => h.callees c (List.mem_append_right _ hc)
  · intro slot hslot
    refine h.short slot ?_
    rw [List.length_append, nextSlots_add]
    exact List.mem_append_right _ hslot

theorem Names.Admits.of_callees {es : List Entry} {cs cs' : List String} {cursor : Int64}
    (h : N.Admits abi es (cs ++ cs') cursor) : N.Admits abi es cs' cursor :=
  ⟨h.text, h.symbol, fun c hc => h.callees c (List.mem_append_right _ hc), h.short⟩

/-- What is assumed of the names of the function and of the routines that code is made with. -/
structure Names.Serves (N : Names) (ctx : Context) : Prop where
  function : N.isSymbol ctx.function
  printHelper : N.isSymbol ctx.abi.printHelper
  readHelper : N.isSymbol ctx.abi.readHelper

theorem formed_fillSlot {loc : Location} {params : ℕ} {e : Entry} {code : List Line}
    (h : fillSlot abi loc params e = .ok code) (hname : N.isText e.name)
    (hslot : N.isShort e.slot) :
    Formed abi N code := by
  have hsave : ∀ {r : Operand}, OperandForm abi N "sw" r →
      LineForm abi N (.op "sw" [r, .mem e.slot "s0"]) :=
    fun hr => .op_two (by decide) hr (.mem hslot (by decide))
  rcases fillSlot_eq_ok h with ⟨-, v, n, -, hn, rfl⟩ | ⟨-, r, hr, rfl⟩ | ⟨-, -, rfl⟩
  · obtain ⟨hval, hrange⟩ := toInt_immediate hn
    exact .cons (.remark_name hname (by decide))
      (.cons (.load_immediate .t0 (hval ▸ hrange)) (.single (hsave .t0)))
  · exact .cons (.remark_name hname (by decide))
      (.single (hsave (.argument (List.mem_of_getElem? hr))))
  · exact .nil

theorem formed_installEntries {loc : Location} : ∀ {es es' : List Entry} {params : ℕ}
    {code : List Line} {p q : Progress},
    Made (installEntries abi loc params es) p (es', code) q → N.Admits abi es [] p.cursor →
      Formed abi N code ∧ ∀ e ∈ es', N.AdmitsEntry e
  | [], _, _, _, _, _, h, _ => by
    obtain ⟨rfl, rfl, -⟩ := made_installEntries_nil h
    exact ⟨.nil, by simp⟩
  | e :: es, _, _, _, p, _, h, hadmits => by
    obtain ⟨-, fill, rest, es'', hfill, hrest, rfl, rfl⟩ := made_installEntries_cons h
    have hname : N.isText e.name := hadmits.text e List.mem_cons_self
    have hslot : N.isShort (p.cursor - abi.slotSize) := hadmits.short _ List.mem_cons_self
    have hentry : N.AdmitsEntry (place abi p.cursor e) :=
      ⟨hname, hadmits.symbol e List.mem_cons_self, hslot⟩
    have hes : N.Admits abi ([e] ++ es) ([] ++ []) p.cursor := hadmits
    obtain ⟨hcode, hentries⟩ := formed_installEntries hrest hes.right
    exact ⟨(formed_fillSlot hfill hname hslot).append hcode,
      List.forall_mem_cons.mpr ⟨hentry, hentries⟩⟩

theorem formed_install {ctx : Context} {loc : Location} {t t' : Option Table} {code : List Line}
    {p q : Progress} (h : Made (install ctx loc t) p (t', code) q)
    (hadmits : N.Admits ctx.abi (Table.entriesOf t) [] p.cursor) :
    Formed ctx.abi N code ∧ ∀ e ∈ Table.entriesOf t', N.AdmitsEntry e := by
  cases t with
  | none =>
    obtain ⟨rfl, rfl, -⟩ := made_install_none h
    exact ⟨.nil, fun _ he => absurd he List.not_mem_nil⟩
  | some t =>
    obtain ⟨es, q', log, rfl, hes, rfl⟩ := made_install_some h
    exact formed_installEntries hes hadmits

theorem formed_countCode {e : Entry} {var : String} {lo hi : Int64} {m n : ℕ} {body : List Line}
    (he : N.AdmitsEntry e) (hvar : N.isText var) (hlo : -2 ^ 31 ≤ lo.toInt ∧ lo.toInt < 2 ^ 31)
    (hhi : -2 ^ 31 ≤ hi.toInt ∧ hi.toInt < 2 ^ 31) (hbody : Formed abi N body) :
    Formed abi N (countCode e var lo hi (".L" ++ Text.decimal ((m : ℤ) + 1))
      (".L" ++ Text.decimal ((n : ℤ) + 1)) body) := by
  have haddr : Formed abi N (loadAddress t0 e) := formed_loadAddress he
  have hstore : LineForm abi N (.op "sw" [t1, .mem 0 "t0"]) := .load_word (.inr rfl) .t1 (by decide)
  refine (((((((Formed.single ?_).append haddr).append ?_).append haddr).append ?_).append
    hbody).append haddr).append ?_
  · have htext : "for " ++ var ++ " in [" ++ Text.decimal lo.toInt ++ ", " ++
        Text.decimal hi.toInt ++ ")" = "for " ++ var ++
        (" in [" ++ Text.decimal lo.toInt ++ ", " ++ Text.decimal hi.toInt ++ ")") := by
      simp only [String.append_assoc]
    rw [htext]
    refine .remark_append hvar (by decide) ?_
    simp only [String.toList_append, List.mem_append, not_or]
    exact ⟨⟨⟨⟨by decide, newline_notMem_decimal _⟩, by decide⟩, newline_notMem_decimal _⟩, by
      decide⟩
  · exact .cons (.load_immediate .t1 hlo) (.cons hstore (.single (.fresh m)))
  · exact .cons (.load_word (.inl rfl) .t0 (by decide)) (.cons (.load_immediate .t1 hhi)
      (.single (.op_three (by decide) .t0 .t1 (.label (.fresh n)))))
  · exact .cons (.load_word (.inl rfl) .t1 (by decide))
      (.cons
        (.op_three (by decide) .t1 .t1 (.short (N.short _ (by decide) (by decide)) (by decide)))
        (.cons hstore (.cons (.op (by decide) (List.forall_mem_singleton.mpr (.label (.fresh m))))
          (.single (.fresh n)))))

theorem formed_jump {label : String} (h : LabelForm N label) :
    LineForm abi N (.op "j" [.label label]) :=
  .op (by decide) (List.forall_mem_singleton.mpr (.label h))

/-- The code of a condition with its jump. -/
theorem formed_test {scopes : Scopes} {condition : Expr} {test : List Line} {label : String}
    (hsees : N.Sees scopes) (htest : expression abi scopes condition = .ok test)
    (hc : ∀ c ∈ condition.callees, N.isSymbol c ∧ N.isText c) (hlabel : LabelForm N label) :
    Formed abi N (test ++ pop t0 ++ [.op "beqz" [t0, .label label]]) :=
  ((formed_expression hsees htest hc).append (formed_pop .t0)).append
    (.single (.op_two (by decide) .t0 (.label hlabel)))

mutual

theorem formed_statement {ctx : Context} (hctx : N.Serves ctx) : ∀ {s : Stmt} {scopes : Scopes}
    {code : List Line} {p q : Progress}, Made (statement ctx scopes s) p code q →
    N.Admits ctx.abi s.entries s.callees p.cursor → N.Sees scopes → Formed ctx.abi N code
  | .block b, _, _, _, _, h, hadmits, hsees => formed_block hctx h hadmits hsees
  | .print _ target, _, _, _, _, h, hadmits, hsees => by
    obtain ⟨c, hc, -, rfl⟩ := made_print h
    exact (((Formed.single (.remark_plain (by decide))).append
      (formed_expression hsees hc hadmits.callees)).append (formed_pop .a0)).append
      (.single (.jump_link hctx.printHelper))
  | .read _ target, _, _, _, _, h, _, hsees => by
    obtain ⟨e, he, -, rfl⟩ := made_read h
    obtain ⟨hentry, hname⟩ := hsees.resolve he
    exact (((((Formed.single (.remark_name hname (by decide))).append
      (formed_loadAddress hentry)).append (formed_push .t0)).append
      (.single (.jump_link hctx.readHelper))).append (formed_pop .t0)).append
      (.single (.load_word (.inr rfl) .a0 (by decide)))
  | .assign _ target value, _, _, _, _, h, hadmits, hsees => by
    obtain ⟨e, c, he, hc, -, rfl⟩ := made_assign h
    obtain ⟨hentry, hname⟩ := hsees.resolve he
    exact ((((((Formed.single (.remark_name hname (by decide))).append
      (formed_loadAddress hentry)).append (formed_push .t0)).append
      (formed_expression hsees hc hadmits.callees)).append (formed_pop .t1)).append
      (formed_pop .t0)).append (.single (.load_word (.inr rfl) .t1 (by decide)))
  | .branch _ condition yes no, _, _, p, _, h, hadmits, hsees => by
    obtain ⟨test, yesCode, noCode, p', p'', htest, rfl, hyes, hno, rfl⟩ := made_branch h
    rw [Stmt.entries, Stmt.callees] at hadmits
    have hcond := fun c hc => hadmits.callees c (List.mem_append_left _ hc)
    have hblocks := hadmits.of_callees
    have hnoAdmits := hblocks.right
    rw [← (made_optionalBlock_gives hyes).of_relabel.cursor] at hnoAdmits
    refine ((((formed_test hsees htest hcond (.fresh p.labels)).append
      (formed_optionalBlock hctx hyes hblocks.left hsees)).append ?_).append
      (formed_optionalBlock hctx hno hnoAdmits hsees)).append (.single (.fresh (p.labels + 1)))
    exact .cons (formed_jump (.fresh (p.labels + 1))) (.single (.fresh p.labels))
  | .loop _ condition body, _, _, p, _, h, hadmits, hsees => by
    obtain ⟨test, bodyCode, p', htest, rfl, hbody, rfl⟩ := made_loop h
    rw [Stmt.entries, Stmt.callees] at hadmits
    have hcond := fun c hc => hadmits.callees c (List.mem_append_left _ hc)
    refine (((Formed.single (.fresh p.labels)).append
      (formed_test hsees htest hcond (.fresh (p.labels + 1)))).append
      (formed_optionalBlock hctx hbody hadmits.of_callees hsees)).append ?_
    exact .cons (formed_jump (.fresh p.labels)) (.single (.fresh (p.labels + 1)))
  | .count _ scope var lower upper body, _, _, p, _, h, hadmits, hsees => by
    obtain ⟨lo, hi, scope', fill, e, bodyCode, p', p'', hbounds, hscope, he, rfl, hbody, rfl⟩ :=
      made_count h
    obtain ⟨c, c', -, -, hlo, hhi, -⟩ := boundValues_eq_ok hbounds
    obtain ⟨hloVal, hloRange⟩ := toInt_immediate hlo
    obtain ⟨hhiVal, hhiRange⟩ := toInt_immediate hhi
    have hparts : N.Admits ctx.abi (Table.entriesOf scope ++ blockEntries body)
        ([] ++ blockCallees body) p.cursor := hadmits
    have hbodyAdmits := hparts.right
    rw [← (made_install_gives hscope).cursor] at hbodyAdmits
    obtain ⟨hfill, hentries⟩ := formed_install hscope hparts.left
    have hinner := hsees.enter hentries
    obtain ⟨hentry, hvar⟩ := hinner.resolve he
    exact hfill.append (formed_countCode hentry hvar (hloVal ▸ hloRange) (hhiVal ▸ hhiRange)
      (formed_optionalBlock hctx hbody hbodyAdmits hinner))
  | .ret _ value, _, _, _, _, h, hadmits, hsees => by
    obtain ⟨c, hc, -, rfl⟩ := made_ret h
    exact (((Formed.single (.remark_plain (by decide))).append
      (formed_expression hsees hc hadmits.callees)).append (formed_pop .a0)).append
      (.single (formed_jump (.exit hctx.function)))
  | .call _ callee args, _, _, _, _, h, hadmits, hsees => by
    obtain ⟨c, hc, -, rfl⟩ := made_call h
    exact (formed_expression hsees hc hadmits.callees).append formed_discard

theorem formed_block {ctx : Context} (hctx : N.Serves ctx) : ∀ {b : Block} {scopes : Scopes}
    {code : List Line} {p q : Progress}, Made (block ctx scopes b) p code q →
    N.Admits ctx.abi b.entries b.callees p.cursor → N.Sees scopes → Formed ctx.abi N code
  | .mk _ scope _ body, _, _, p, _, h, hadmits, hsees => by
    obtain ⟨scope', fill, bodyCode, p', hscope, hbody, rfl⟩ := made_block h
    have hparts : N.Admits ctx.abi (Table.entriesOf scope ++ statementsEntries body)
        ([] ++ statementsCallees body) p.cursor := hadmits
    have hbodyAdmits := hparts.right
    rw [← (made_install_gives hscope).cursor] at hbodyAdmits
    obtain ⟨hfill, hentries⟩ := formed_install hscope hparts.left
    exact hfill.append (formed_statements hctx hbody hbodyAdmits (hsees.enter hentries))

theorem formed_optionalBlock {ctx : Context} (hctx : N.Serves ctx) : ∀ {b : Option Block}
    {scopes : Scopes} {code : List Line} {p q : Progress},
    Made (optionalBlock ctx scopes b) p code q →
    N.Admits ctx.abi (blockEntries b) (blockCallees b) p.cursor → N.Sees scopes →
      Formed ctx.abi N code
  | none, _, _, _, _, h, _, _ => by
    obtain ⟨rfl, -⟩ := made_pure_iff.mp h
    exact .nil
  | some b, _, _, _, _, h, hadmits, hsees => formed_block hctx h hadmits hsees

theorem formed_statements {ctx : Context} (hctx : N.Serves ctx) : ∀ {ss : List Stmt}
    {scopes : Scopes} {code : List Line} {p q : Progress},
    Made (statements ctx scopes ss) p code q →
    N.Admits ctx.abi (statementsEntries ss) (statementsCallees ss) p.cursor → N.Sees scopes →
      Formed ctx.abi N code
  | [], _, _, _, _, h, _, _ => by
    obtain ⟨rfl, -⟩ := made_pure_iff.mp h
    exact .nil
  | s :: ss, _, _, p, _, h, hadmits, hsees => by
    obtain ⟨first, rest, p', hs, hss, rfl⟩ := made_statements_cons h
    rw [statementsEntries, statementsCallees] at hadmits
    have hrest := hadmits.right
    rw [← (made_statement_gives hs).cursor] at hrest
    exact (formed_statement hctx hs hadmits.left hsees).append
      (formed_statements hctx hss hrest hsees)

end

/-! ### Functions -/

theorem frameSize_eq_ok {ctx : Context} {loc : Location} {cursor size : Int64}
    (h : frameSize ctx loc cursor = .ok size) :
    size = max ctx.abi.frameSize (alignUp (-cursor) 16) ∧ ctx.abi.frameSize.toInt ≤ size.toInt ∧
      size.toInt ≤ 2032 := by
  simp only [frameSize] at h
  split at h
  · next hle =>
    cases h
    refine ⟨rfl, ?_, Int64.le_iff_toInt_le.mp hle⟩
    rw [toInt_max]
    exact le_max_left _ _
  · cases h

theorem formed_frameCode {ctx : Context} {size : Int64} {body : List Line} (hctx : N.Serves ctx)
    (hlow : 0 < size.toInt) (hhigh : size.toInt ≤ 2032) (hbody : Formed ctx.abi N body) :
    Formed ctx.abi N (frameCode ctx size body) := by
  have hneg : (-size).toInt = -size.toInt := by
    rw [Int64.toInt_neg]
    exact Int.bmod_eq_of_le (by omega) (by omega)
  have hsub : ∀ n : Int64, 0 ≤ n.toInt → n.toInt ≤ 8 → (size - n).toInt = size.toInt - n.toInt := by
    intro n h h'
    rw [Int64.toInt_sub]
    exact Int.bmod_eq_of_le (by omega) (by omega)
  have hsize : N.isShort size := N.short _ (by omega) (by omega)
  have hopen : N.isShort (-size) := N.short _ (by omega) (by omega)
  have hra : N.isShort (size - wordSize) := by
    have := hsub wordSize (by decide) (by decide)
    have hw : wordSize.toInt = 4 := by decide
    exact N.short _ (by omega) (by omega)
  have hs0 : N.isShort (size - 2 * wordSize) := by
    have := hsub (2 * wordSize) (by decide) (by decide)
    have hw : (2 * wordSize).toInt = 8 := by decide
    exact N.short _ (by omega) (by omega)
  have hsaved : ∀ {m : String} {r : Operand} {n : Int64}, m ∈ mnemonics →
      OperandForm ctx.abi N m r → N.isShort n → LineForm ctx.abi N (.op m [r, .mem n "sp"]) :=
    fun hm hr hn => .op_two hm hr (.mem hn (by decide))
  have hmove : ∀ {r : Operand} {n : Int64}, OperandForm ctx.abi N "addi" r → N.isShort n →
      LineForm ctx.abi N (.op "addi" [r, sp, .imm n]) :=
    fun hr hn => .op_three (by decide) hr .sp (.short hn (by decide))
  refine (Formed.append ?_ hbody).append ?_
  · refine .cons (.remark_plain ?_) (.cons (hmove .sp hopen) (.cons (hsaved (by decide) .ra hra)
      (.cons (hsaved (by decide) .s0 hs0) (.single (hmove .s0 hsize)))))
    simp only [String.toList_append, List.mem_append, not_or]
    exact ⟨⟨by decide, newline_notMem_decimal _⟩, by decide⟩
  · exact .cons (.exit hctx.function) (.cons (hsaved (by decide) .ra hra)
      (.cons (hsaved (by decide) .s0 hs0) (.cons (hmove .sp hsize)
      (.single (.op (by decide) (List.forall_mem_singleton.mpr .ra))))))

end Lower

/-- The names of the functions that a function calls. -/
def Function.callees (f : Function) : List String := blockCallees f.body

namespace Lower

open Asm

variable {abi : Abi} {N : Names}

/-- **The lines of a function** have one of the forms. -/
theorem formed_function {globals : Scopes} {f : RvBackend.Function} {g : Asm.Function}
    {p q : Progress} (h : LoweredFunction abi globals f p g q) (hframe : 0 < abi.frameSize.toInt)
    (hctx : N.Serves ⟨abi, f.name⟩)
    (hadmits : N.Admits abi f.entries f.callees ({} : Progress).cursor) (hsees : N.Sees globals) :
    Formed abi N g.lines := by
  obtain ⟨scope, fill, body, size, log, log', p', p'', hscope, hbody, hsize, -, -, hlines⟩ := h
  obtain ⟨-, hlow, hhigh⟩ := frameSize_eq_ok hsize
  have hparts : N.Admits abi (Table.entriesOf f.scope ++ blockEntries f.body)
      ([] ++ blockCallees f.body) ({} : Progress).cursor := hadmits
  have hbodyAdmits := hparts.right
  rw [← (made_install_gives hscope).cursor] at hbodyAdmits
  obtain ⟨hfill, hentries⟩ := formed_install hscope hparts.left
  rw [hlines]
  exact formed_frameCode hctx (hframe.trans_le hlow) hhigh
    (hfill.append (formed_optionalBlock hctx hbody hbodyAdmits (hsees.enter hentries)))

/-- What is assumed of a program whose functions are made. -/
structure Names.AdmitsAll (N : Names) (abi : Abi) (globals : Scopes)
    (fs : List RvBackend.Function) :
    Prop where
  frame : 0 < abi.frameSize.toInt
  sees : N.Sees globals
  printHelper : N.isSymbol abi.printHelper
  readHelper : N.isSymbol abi.readHelper
  symbol : ∀ f ∈ fs, N.isSymbol f.name
  admits : ∀ f ∈ fs, N.Admits abi f.entries f.callees ({} : Progress).cursor

theorem formed_functions {globals : Scopes} {fs : List RvBackend.Function} {gs : List Asm.Function}
    {p q : Progress} (h : LoweredAll abi globals fs p gs q) (hN : N.AdmitsAll abi globals fs) :
    ∀ g ∈ gs, Formed abi N g.lines := by
  induction h with
  | nil => simp
  | @cons f fs g gs p q r head tail ih =>
    refine List.forall_mem_cons.mpr ⟨?_, ih ?_⟩
    · have hf : f ∈ f :: fs := List.mem_cons_self
      exact formed_function head hN.frame ⟨hN.symbol f hf, hN.printHelper, hN.readHelper⟩
        (hN.admits f hf) hN.sees
    · exact { hN with
        symbol := fun f' hf => hN.symbol f' (List.mem_cons_of_mem _ hf)
        admits := fun f' hf => hN.admits f' (List.mem_cons_of_mem _ hf) }

end Lower

end RvBackend
