import RvBackend.Proofs.Lower.Align
import RvBackend.Proofs.Lower.Made
import RvBackend.Tree.Slots

/-! # Slots in the order in which they are given out

The entries of a function are numbered as generation visits them: the scope of the function first,
then each block and `for` loop where it stands, outer scopes before inner ones. The cursor goes down
by one slot for each of them, whatever they are and however deep they stand.

* `Function.entries` lists the entries in that order.
* `made_statement_slots` and its companions: what a construct does to the cursor and to the slots.
* `toInt_lowered`: the cursor after `n` entries, as an integer. -/

namespace RvBackend

/-! ### The entries of a function -/

mutual

/-- The entries of the scopes in a statement, in the order of generation. -/
def Stmt.entries : Stmt → List Entry
  | .block b => b.entries
  | .branch _ _ yes no => blockEntries yes ++ blockEntries no
  | .loop _ _ body => blockEntries body
  | .count _ scope _ _ _ body => Table.entriesOf scope ++ blockEntries body
  | .print .. => []
  | .read .. => []
  | .assign .. => []
  | .ret .. => []
  | .call .. => []

/-- The entries of a block and of the scopes in it. -/
def Block.entries : Block → List Entry
  | .mk _ scope _ statements => Table.entriesOf scope ++ statementsEntries statements

/-- The entries of a block that may be missing. -/
def blockEntries : Option Block → List Entry
  | none => []
  | some b => b.entries

/-- The entries of the scopes in statements. -/
def statementsEntries : List Stmt → List Entry
  | [] => []
  | s :: ss => s.entries ++ statementsEntries ss

end

/-- The entries of a function and of all scopes in it. -/
def Function.entries (f : Function) : List Entry := Table.entriesOf f.scope ++ blockEntries f.body

namespace Lower

open Asm

/-! ### The cursor -/

/-- The cursor after `n` more slots. -/
def lowered (abi : Abi) (cursor : Int64) : ℕ → Int64
  | 0 => cursor
  | n + 1 => lowered abi (cursor - abi.slotSize) n

/-- The next `n` slots. -/
def nextSlots (abi : Abi) (cursor : Int64) : ℕ → List Int64
  | 0 => []
  | n + 1 => (cursor - abi.slotSize) :: nextSlots abi (cursor - abi.slotSize) n

theorem lowered_add (abi : Abi) (m : ℕ) : ∀ (n : ℕ) (cursor : Int64),
    lowered abi cursor (n + m) = lowered abi (lowered abi cursor n) m
  | 0, cursor => by rw [Nat.zero_add]; rfl
  | n + 1, cursor => by
    rw [Nat.succ_add]
    exact lowered_add abi m n _

theorem nextSlots_add (abi : Abi) (m : ℕ) : ∀ (n : ℕ) (cursor : Int64),
    nextSlots abi cursor (n + m) = nextSlots abi cursor n ++ nextSlots abi (lowered abi cursor n) m
  | 0, cursor => by rw [Nat.zero_add]; rfl
  | n + 1, cursor => by
    rw [Nat.succ_add]
    exact congrArg (_ :: ·) (nextSlots_add abi m n _)

theorem length_nextSlots (abi : Abi) :
    ∀ (n : ℕ) (cursor : Int64), (nextSlots abi cursor n).length = n
  | 0, _ => rfl
  | n + 1, _ => congrArg (· + 1) (length_nextSlots abi n _)

/-- **The cursor as an integer**, as long as it stays in 64 bits. -/
theorem toInt_lowered {abi : Abi} (hslot : 0 ≤ abi.slotSize.toInt) : ∀ {n : ℕ} {cursor : Int64},
    -2 ^ 63 ≤ cursor.toInt - abi.slotSize.toInt * n →
      (lowered abi cursor n).toInt = cursor.toInt - abi.slotSize.toInt * n
  | 0, cursor, _ => by simp [lowered]
  | n + 1, cursor, h => by
    have hrest : 0 ≤ abi.slotSize.toInt * n := Int.mul_nonneg hslot (Int.natCast_nonneg n)
    push_cast at h ⊢
    rw [Int.mul_add, Int.mul_one] at h ⊢
    have hstep : (cursor - abi.slotSize).toInt = cursor.toInt - abi.slotSize.toInt := by
      have hlt := cursor.toInt_lt
      rw [Int64.toInt_sub]
      exact Int.bmod_eq_of_le (by omega) (by omega)
    rw [lowered, toInt_lowered hslot (by rw [hstep]; omega), hstep]
    omega

/-! ### What generation gives out -/

/-- Between `p` and `q`, the next `n` slots are given out. -/
structure Gives (abi : Abi) (n : ℕ) (p q : Progress) : Prop where
  cursor : q.cursor = lowered abi p.cursor n
  slots : q.slots.toList = p.slots.toList ++ nextSlots abi p.cursor n

theorem Gives.none {abi : Abi} {p : Progress} {labels : ℕ} {log : Array LogRecord} :
    Gives abi 0 p { p with labels, log } :=
  ⟨rfl, (List.append_nil _).symm⟩

theorem Gives.trans {abi : Abi} {m n : ℕ} {p q r : Progress} (h : Gives abi m p q)
    (h' : Gives abi n q r) : Gives abi (m + n) p r := by
  refine ⟨?_, ?_⟩
  · rw [h'.cursor, h.cursor, lowered_add]
  · rw [h'.slots, h.slots, h.cursor, nextSlots_add, List.append_assoc]

theorem Gives.relabel {abi : Abi} {n : ℕ} {p q : Progress} {labels : ℕ} {log : Array LogRecord}
    (h : Gives abi n p q) : Gives abi n p { q with labels, log } := ⟨h.cursor, h.slots⟩

theorem Gives.of_relabel {abi : Abi} {n : ℕ} {p q : Progress} {labels : ℕ} {log : Array LogRecord}
    (h : Gives abi n { p with labels, log } q) : Gives abi n p q := ⟨h.cursor, h.slots⟩

theorem made_installEntries_gives {abi : Abi} {loc : Location} : ∀ {es es' : List Entry}
    {params : ℕ} {code : List Line} {p q : Progress},
    Made (installEntries abi loc params es) p (es', code) q → Gives abi es.length p q
  | [], _, _, _, p, _, h => by
    obtain ⟨-, -, rfl⟩ := made_installEntries_nil h
    exact Gives.none
  | e :: es, _, _, _, p, q, h => by
    obtain ⟨-, _, _, _, -, hrest, -, -⟩ := made_installEntries_cons h
    obtain ⟨hcursor, hslots⟩ := made_installEntries_gives hrest
    refine ⟨hcursor, ?_⟩
    rw [hslots]
    simp [nextSlots]

theorem made_install_gives {ctx : Context} {loc : Location} {t t' : Option Table} {code : List Line}
    {p q : Progress} (h : Made (install ctx loc t) p (t', code) q) :
    Gives ctx.abi (Table.entriesOf t).length p q := by
  cases t with
  | none =>
    obtain ⟨-, -, rfl⟩ := made_install_none h
    exact Gives.none
  | some t =>
    obtain ⟨es, q', log, -, hes, rfl⟩ := made_install_some h
    exact (made_installEntries_gives hes).relabel

mutual

theorem made_statement_gives {ctx : Context} : ∀ {s : Stmt} {scopes : Scopes} {code : List Line}
    {p q : Progress}, Made (statement ctx scopes s) p code q → Gives ctx.abi s.entries.length p q
  | .block b, _, _, _, _, h => made_block_gives h
  | .print _ _, _, _, _, _, h => by
    obtain ⟨_, -, rfl, -⟩ := made_print h
    exact Gives.none
  | .read _ _, _, _, _, _, h => by
    obtain ⟨_, -, rfl, -⟩ := made_read h
    exact Gives.none
  | .assign _ _ _, _, _, _, _, h => by
    obtain ⟨_, _, -, -, rfl, -⟩ := made_assign h
    exact Gives.none
  | .branch _ _ yes no, _, _, _, _, h => by
    obtain ⟨_, _, _, _, _, -, rfl, hyes, hno, -⟩ := made_branch h
    rw [Stmt.entries, List.length_append]
    exact (made_optionalBlock_gives hyes).of_relabel.trans (made_optionalBlock_gives hno)
  | .loop _ _ body, _, _, _, _, h => by
    obtain ⟨_, _, _, -, rfl, hbody, -⟩ := made_loop h
    exact (made_optionalBlock_gives hbody).of_relabel
  | .count _ scope _ _ _ body, _, _, _, _, h => by
    obtain ⟨_, _, _, _, _, _, _, _, -, hscope, -, rfl, hbody, -⟩ := made_count h
    rw [Stmt.entries, List.length_append]
    exact (made_install_gives hscope).relabel.trans (made_optionalBlock_gives hbody)
  | .ret _ _, _, _, _, _, h => by
    obtain ⟨_, -, rfl, -⟩ := made_ret h
    exact Gives.none
  | .call _ _ _, _, _, _, _, h => by
    obtain ⟨_, -, rfl, -⟩ := made_call h
    exact Gives.none

theorem made_block_gives {ctx : Context} : ∀ {b : Block} {scopes : Scopes} {code : List Line}
    {p q : Progress}, Made (block ctx scopes b) p code q → Gives ctx.abi b.entries.length p q
  | .mk _ scope _ body, _, _, _, _, h => by
    obtain ⟨_, _, _, _, hscope, hbody, -⟩ := made_block h
    rw [Block.entries, List.length_append]
    exact (made_install_gives hscope).trans (made_statements_gives hbody)

theorem made_optionalBlock_gives {ctx : Context} : ∀ {b : Option Block} {scopes : Scopes}
    {code : List Line} {p q : Progress},
    Made (optionalBlock ctx scopes b) p code q → Gives ctx.abi (blockEntries b).length p q
  | none, _, _, _, _, h => by
    obtain ⟨-, rfl⟩ := made_pure_iff.mp h
    exact Gives.none
  | some b, _, _, _, _, h => made_block_gives h

theorem made_statements_gives {ctx : Context} : ∀ {ss : List Stmt} {scopes : Scopes}
    {code : List Line} {p q : Progress},
    Made (statements ctx scopes ss) p code q → Gives ctx.abi (statementsEntries ss).length p q
  | [], _, _, _, _, h => by
    obtain ⟨-, rfl⟩ := made_pure_iff.mp h
    exact Gives.none
  | s :: ss, _, _, _, _, h => by
    obtain ⟨_, _, _, hs, hss, -⟩ := made_statements_cons h
    rw [statementsEntries, List.length_append]
    exact (made_statement_gives hs).trans (made_statements_gives hss)

end

end Lower

end RvBackend
