import RvBackend.Proofs.Lower.Lines
import RvBackend.Proofs.Tree.Occurrences

/-! # Constructs that there is code for

Generation checks each construct where it comes to it, in the midst of giving out slots and labels.
None of this matters for the checks: the code of a construct is made exactly if each place in it
passes a check of its own, which can be told from the place alone.

* `Occurrence.Supported` is what is asked of a place, `Occurrence.Lowers` the check that generation
  makes.
* `succeeds_statement_iff` and its companions: no check is left out and no other one is made. -/

namespace RvBackend

/-! ### What is asked of a place -/

/-- The types whose values are words. -/
def Ty.IsWord (t : Ty) : Prop := t = .integer ∨ t = .boolean

/-- A signed number of 32 bits. -/
def FitsWord (v : ℤ) : Prop := -2 ^ 31 ≤ v ∧ v < 2 ^ 31

instance (t : Ty) : Decidable t.IsWord := inferInstanceAs (Decidable (_ ∨ _))

instance (v : ℤ) : Decidable (FitsWord v) := inferInstanceAs (Decidable (_ ∧ _))

/-- The value of an integer literal of 32 bits; a bound of a `for` loop has to be one. -/
def Expr.bound? : Expr → Option ℤ
  | .constant c => if c.type = .integer ∧ FitsWord c.value then some c.value else none
  | _ => none

/-- An entry of a word; a constant fits its word. -/
def Entry.Supported (e : Entry) : Prop :=
  e.type.IsWord ∧ (e.kind = .constant → ∀ v ∈ e.value, FitsWord v)

instance (e : Entry) : Decidable e.Supported :=
  inferInstanceAs (Decidable (_ ∧ (_ → ∀ v ∈ e.value, _)))

/-- What is asked of a place. -/
def Occurrence.Supported (abi : Abi) : Occurrence → Prop
  | .missing => False
  | .literal c => c.type.IsWord ∧ FitsWord c.value
  | .variable visible name => name ∈ visible
  | .binary _ op => op ∈ [.plus, .minus, .times, .divide, .mod] ∨
      op ∈ [.less, .lessOrEqual, .greater, .greaterOrEqual, .equal, .notEqual] ∨ op ∈ [.and, .or]
  | .unary _ op => op ∈ [.neg, .not]
  | .call _ _ count => count ≤ abi.maxArgs
  | .bounds _ lower upper => ∃ lo ∈ lower.bound?, ∃ hi ∈ upper.bound?, lo ≤ hi
  | .scope entries => (∀ e ∈ entries, e.Supported) ∧
      entries.countP (·.kind = .parameter) ≤ abi.maxArgs

instance (abi : Abi) : (o : Occurrence) → Decidable (o.Supported abi)
  | .missing => inferInstanceAs (Decidable False)
  | .literal _ => inferInstanceAs (Decidable (_ ∧ _))
  | .variable visible name => inferInstanceAs (Decidable (name ∈ visible))
  | .binary _ _ => inferInstanceAs (Decidable (_ ∨ _ ∨ _))
  | .unary _ op => inferInstanceAs (Decidable (op ∈ [Operator.neg, .not]))
  | .call _ _ count => inferInstanceAs (Decidable (count ≤ abi.maxArgs))
  | .bounds _ lower upper =>
    inferInstanceAs (Decidable (∃ lo ∈ lower.bound?, ∃ hi ∈ upper.bound?, lo ≤ hi))
  | .scope entries => inferInstanceAs (Decidable ((∀ e ∈ entries, e.Supported) ∧ _))

/-! ### The checks of generation -/

/-- The check that generation makes of an entry. -/
def Entry.Lowers (e : Entry) : Prop :=
  e.type.isScalar ∧ (e.kind = .constant → ∃ v ∈ e.value, FitsWord v)

/-- The check that generation makes at a place. -/
def Occurrence.Lowers (abi : Abi) : Occurrence → Prop
  | .missing => False
  | .literal c => ∃ code, Lower.literal c = .ok code
  | .variable visible name => name ∈ visible
  | .binary loc op => ∃ code, Lower.operation loc op = .ok code
  | .unary loc op => ∃ code, Lower.unaryOperation loc op = .ok code
  | .call loc callee count => Lower.checkArguments abi loc callee count = .ok ()
  | .bounds loc lower upper => ∃ values, Lower.boundValues loc lower upper = .ok values
  | .scope entries => (∀ e ∈ entries, e.Lowers) ∧ entries.countP (·.kind = .parameter) ≤ abi.maxArgs

namespace Lower

open Asm

theorem isScalar_iff {t : Ty} : t.isScalar ↔ t.IsWord := by simp [Ty.isScalar, Ty.IsWord]

theorem immediate_eq_ok_iff {loc : Location} {v : ℤ} {n : Int64} :
    immediate loc v = .ok n ↔ FitsWord v ∧ v = n.toInt := by
  constructor
  · intro h
    obtain ⟨hn, hv⟩ := toInt_immediate h
    exact ⟨hv, hn.symm⟩
  · rintro ⟨h, rfl⟩
    have hword : Text.inWord 32 n.toInt = true := by
      rw [Text.inWord, Bool.and_eq_true, decide_eq_true_eq, decide_eq_true_eq]
      exact h
    rw [immediate, if_pos hword, Int64.ofInt_toInt]

theorem exists_immediate_iff {loc : Location} {v : ℤ} :
    (∃ n, immediate loc v = .ok n) ↔ FitsWord v := by
  simp only [immediate_eq_ok_iff]
  constructor
  · exact fun ⟨_, h, _⟩ => h
  · exact fun h =>
      ⟨Int64.ofInt v, h,
        (Int64.toInt_ofInt_of_le (by have := h.1; omega) (by have := h.2; omega)).symm⟩

theorem exists_literal_iff {c : Constant} :
    (∃ code, literal c = .ok code) ↔ c.type.IsWord ∧ FitsWord c.value := by
  rw [← isScalar_iff, ← @exists_immediate_iff c.loc, literal]
  by_cases hs : c.type.isScalar = true
  · simp only [hs, if_true, true_and, ok_bind_iff, ok_pure_iff]
    constructor
    · rintro ⟨_, n, hn, -⟩
      exact ⟨n, hn⟩
    · rintro ⟨n, hn⟩
      exact ⟨_, n, hn, rfl⟩
  · simp [hs, ok_bind_iff, ok_throw_iff]

theorem exists_operation_iff {loc : Location} {op : Operator} :
    (∃ code, operation loc op = .ok code) ↔
    op ∈ [.plus, .minus, .times, .divide, .mod] ∨
      op ∈ [.less, .lessOrEqual, .greater, .greaterOrEqual, .equal, .notEqual] ∨
      op ∈ [.and, .or] := by
  cases op <;> simp [operation, Operator.isRelational]

theorem exists_unaryOperation_iff {loc : Location} {op : Operator} (hop : op ≠ .minus) :
    (∃ code, unaryOperation loc op = .ok code) ↔ op ∈ [.neg, .not] := by
  cases op <;> simp_all [unaryOperation]

theorem checkArguments_eq_ok_iff {abi : Abi} {loc : Location} {callee : String} {count : ℕ} :
    checkArguments abi loc callee count = .ok () ↔ count ≤ abi.maxArgs := by
  unfold checkArguments
  split <;> simp [*]

theorem boundValue_eq_ok_iff {b : Bound} {e : Expr} {n : Int64} :
    boundValue b e = .ok n ↔ n.toInt ∈ e.bound? := by
  cases e with
  | constant c =>
    by_cases hc : c.type = .integer
    · simp only [boundValue, Expr.bound?, hc, if_true, true_and, immediate_eq_ok_iff,
        Option.mem_def]
      split <;> simp [*]
    · simp [boundValue, Expr.bound?, hc]
  | _ => simp [boundValue, Expr.bound?]

theorem exists_toInt_of_bound {e : Expr} {v : ℤ} (h : v ∈ e.bound?) : ∃ n : Int64, n.toInt = v := by
  unfold Expr.bound? at h
  split at h
  · split at h
    · next hc =>
      cases h
      obtain ⟨n, hn⟩ := (@exists_immediate_iff {} _).mpr hc.2
      exact ⟨n, (immediate_eq_ok_iff.mp hn).2.symm⟩
    · cases h
  · cases h

theorem exists_boundValues_iff {loc : Location} {lower upper : Expr} :
    (∃ values, boundValues loc lower upper = .ok values) ↔
      ∃ lo ∈ lower.bound?, ∃ hi ∈ upper.bound?, lo ≤ hi := by
  simp only [boundValues, ok_bind_iff, boundValue_eq_ok_iff]
  constructor
  · rintro ⟨values, lo, hlo, hi, hhi, h⟩
    split at h
    · next hle => exact ⟨lo.toInt, hlo, hi.toInt, hhi, Int64.le_iff_toInt_le.mp hle⟩
    · cases h
  · rintro ⟨_, hlo, _, hhi, hle⟩
    obtain ⟨lo, rfl⟩ := exists_toInt_of_bound hlo
    obtain ⟨hi, rfl⟩ := exists_toInt_of_bound hhi
    exact ⟨(lo, hi), lo, hlo, hi, hhi, if_pos (Int64.le_iff_toInt_le.mpr hle)⟩

theorem entry_lowers_iff_supported {e : Entry} (h : e.Decoded) : e.Lowers ↔ e.Supported := by
  rw [Entry.Lowers, Entry.Supported, isScalar_iff]
  refine and_congr_right' (forall_congr' fun hkind => ?_)
  obtain ⟨v, hv⟩ := Option.isSome_iff_exists.mp (h hkind)
  simp [hv]

/-- **The checks of generation are what is asked**, in a tree that was read. -/
theorem lowers_iff_supported {abi : Abi} :
    ∀ {o : Occurrence}, o.Decoded → (o.Lowers abi ↔ o.Supported abi)
  | .missing, _ => Iff.rfl
  | .literal _, _ => exists_literal_iff
  | .variable _ _, _ => Iff.rfl
  | .binary _ _, _ => exists_operation_iff
  | .unary _ _, h => exists_unaryOperation_iff h
  | .call _ _ _, _ => checkArguments_eq_ok_iff
  | .bounds _ _ _, _ => exists_boundValues_iff
  | .scope _, h => and_congr_left' (forall₂_congr fun e he => entry_lowers_iff_supported (h e he))

/-! ### Scopes -/

/-- The scopes of a place declare the names that are visible there, and only words. -/
structure Shows (visible : List String) (scopes : Scopes) : Prop where
  declared : ∀ name, name ∈ visible ↔ ∃ t ∈ scopes, ∃ e ∈ t.entries, e.name = name
  scalar : ∀ t ∈ scopes, ∀ e ∈ t.entries, e.type.isScalar

theorem Shows.enter {visible : List String} {scopes : Scopes} {t : Option Table}
    (h : Shows visible scopes) (ht : ∀ e ∈ Table.entriesOf t, e.type.isScalar) :
    Shows (Table.namesOf t ++ visible) (scopes.enter t) := by
  cases t with
  | none => exact h
  | some t =>
    refine ⟨fun name => ?_, List.forall_mem_cons.mpr ⟨ht, h.scalar⟩⟩
    rw [List.mem_append, h.declared name]
    simp [Table.namesOf, Table.entriesOf, Scopes.enter]

theorem Shows.exists_resolve_iff {visible : List String} {scopes : Scopes}
    (h : Shows visible scopes) {loc : Location} {name : String} :
    (∃ e, resolve scopes loc name = .ok e) ↔ name ∈ visible := by
  rw [h.declared name]
  constructor
  · rintro ⟨e, he⟩
    obtain ⟨hname, t, ht, hmem⟩ := find?_mem (resolve_eq_ok he).1
    exact ⟨t, ht, e, hmem, hname⟩
  · rintro ⟨t, ht, e, he, hname⟩
    have hfound : (scopes.find? name).isSome := by
      unfold Scopes.find? Table.find?
      simp only [List.findSome?_isSome_iff, List.find?_isSome, List.mem_reverse]
      exact ⟨t, ht, e, he, by simpa using hname⟩
    obtain ⟨e', he'⟩ := Option.isSome_iff_exists.mp hfound
    obtain ⟨-, t', ht', hmem⟩ := find?_mem he'
    exact ⟨e', by rw [resolve, he']; exact if_pos (h.scalar t' ht' e' hmem)⟩

section

variable {abi : Abi} {loc : Location} {p q : Progress}

theorem exists_fillSlot_iff {params : ℕ} {e : Entry} :
    (∃ code, fillSlot abi loc params e = .ok code) ↔
    (e.kind = .constant → ∃ v ∈ e.value, FitsWord v) ∧
      (e.kind = .parameter → params < abi.maxArgs) := by
  unfold fillSlot
  cases hkind : e.kind with
  | constant =>
    cases hv : e.value with
    | none => simp
    | some v =>
      simp only [ok_bind_iff, ok_pure_iff, ← @exists_immediate_iff loc]
      constructor
      · rintro ⟨_, n, hn, -⟩
        exact ⟨fun _ => ⟨v, rfl, n, hn⟩, nofun⟩
      · rintro ⟨h, -⟩
        obtain ⟨_, hv', n, hn⟩ := h trivial
        cases hv'
        exact ⟨_, n, hn, rfl⟩
  | parameter =>
    cases hr : abi.registers[params]? with
    | none => simpa [Abi.maxArgs] using hr
    | some r =>
      obtain ⟨hlt, -⟩ := List.getElem?_eq_some_iff.mp hr
      simpa [Abi.maxArgs] using hlt
  | _ => simp

theorem succeeds_installEntries_iff :
    ∀ {es : List Entry} {params : ℕ} {p : Progress}, params ≤ abi.maxArgs →
    (Succeeds (installEntries abi loc params es) p ↔
      (∀ e ∈ es, e.Lowers) ∧ params + es.countP (·.kind = .parameter) ≤ abi.maxArgs)
  | [], params, p, hparams => by simpa [installEntries, succeeds_pure] using hparams
  | e :: es, params, p, hparams => by
    rw [installEntries, List.forall_mem_cons]
    by_cases hs : e.type.isScalar = true
    · have hcount : ((e.Lowers ∧ ∀ e ∈ es, e.Lowers) ∧
          params + (e :: es).countP (·.kind = .parameter) ≤ abi.maxArgs) ↔
          ((e.kind = .constant → ∃ v ∈ e.value, FitsWord v) ∧
            (e.kind = .parameter → params < abi.maxArgs)) ∧
            (∀ e ∈ es, e.Lowers) ∧ (if e.kind = .parameter then params + 1 else params) +
              es.countP (·.kind = .parameter) ≤ abi.maxArgs := by
        rw [Entry.Lowers, List.countP_cons]
        by_cases hkind : e.kind = .parameter
        · simp only [hkind, hs, decide_true, if_true]
          grind
        · simp only [hkind, hs, decide_false, if_false]
          grind
      rw [if_pos hs, hcount]
      refine Succeeds.bind_iff_right ⟨_, _, made_newSlot_iff.mpr ⟨rfl, rfl⟩⟩ fun slot q _ => ?_
      refine Succeeds.bind_iff (succeeds_lift_iff.trans exists_fillSlot_iff) fun code q' hcode => ?_
      have hroom := (exists_fillSlot_iff.mp ⟨code, (made_lift_iff.mp hcode).1⟩).2
      refine (Succeeds.bind_iff_left fun _ _ _ => succeeds_pure _).trans
        (succeeds_installEntries_iff ?_)
      split
      · next hkind => exact hroom hkind
      · exact hparams
    · rw [if_neg hs]
      refine iff_of_false ?_ fun h => hs h.1.1.1
      rintro ⟨_, _, h⟩
      obtain ⟨_, _, hthrow, _⟩ := made_bind_iff.mp h
      exact not_made_throw hthrow

theorem succeeds_newLabel : Succeeds newLabel p := ⟨_, _, made_newLabel_iff.mpr ⟨rfl, rfl⟩⟩

theorem succeeds_note {message : String} {attrs : List (String × String)} :
    Succeeds (note message attrs) p :=
  ⟨(), _, made_modify_iff.mpr rfl⟩

theorem succeeds_get : Succeeds (get : Lowering Progress) p := ⟨p, p, made_get_iff.mpr ⟨rfl, rfl⟩⟩

theorem succeeds_install_iff {ctx : Context} {scope : Option Table} :
    Succeeds (install ctx loc scope) p ↔
      (Occurrence.scope (Table.entriesOf scope)).Lowers ctx.abi := by
  cases scope with
  | none =>
    refine iff_of_true (succeeds_pure _) ⟨?_, Nat.zero_le _⟩
    exact fun _ he => absurd he List.not_mem_nil
  | some t =>
    have hentries := @succeeds_installEntries_iff ctx.abi loc t.entries 0 p (Nat.zero_le _)
    rw [Nat.zero_add] at hentries
    rw [install]
    refine (Succeeds.bind_iff_left ?_).trans hentries
    rintro ⟨es, code⟩ q -
    dsimp only
    split
    · exact succeeds_pure _
    · refine (Succeeds.bind_iff_left fun _ _ _ => ?_).mpr succeeds_get
      exact (Succeeds.bind_iff_left fun _ _ _ => succeeds_pure _).mpr succeeds_note

theorem made_installEntries_entries :
    ∀ {es es' : List Entry} {params : ℕ} {code : List Line} {p q : Progress},
    Made (installEntries abi loc params es) p (es', code) q →
    es'.map Entry.name = es.map Entry.name ∧ ∀ e ∈ es', e.type.isScalar
  | [], _, _, _, _, _, h => by
    obtain ⟨rfl, -, -⟩ := made_installEntries_nil h
    exact ⟨rfl, fun _ he => absurd he List.not_mem_nil⟩
  | e :: es, _, _, _, _, _, h => by
    obtain ⟨hs, _, _, es', -, hrest, rfl, -⟩ := made_installEntries_cons h
    obtain ⟨hnames, hscalar⟩ := made_installEntries_entries hrest
    exact ⟨congrArg (e.name :: ·) hnames, List.forall_mem_cons.mpr ⟨hs, hscalar⟩⟩

/-- Inside a scope, the names that it declares are visible besides those around it. -/
theorem Shows.install {ctx : Context} {scope scope' : Option Table} {code : List Line}
    {visible : List String} {scopes : Scopes} (hshows : Shows visible scopes)
    (h : Made (install ctx loc scope) p (scope', code) q) :
    Shows (Table.namesOf scope ++ visible) (scopes.enter scope') := by
  cases scope with
  | none =>
    obtain ⟨rfl, -, -⟩ := made_install_none h
    exact hshows
  | some t =>
    obtain ⟨es, q', log, rfl, hes, -⟩ := made_install_some h
    obtain ⟨hnames, hscalar⟩ := made_installEntries_entries hes
    have henter := @Shows.enter _ _ (some ⟨es⟩) hshows hscalar
    rw [Table.namesOf, Table.entriesOf, Option.map_some, Option.getD_some, hnames] at henter
    exact henter

end

/-! ### Expressions and statements -/

section

variable {abi : Abi} {visible : List String} {scopes : Scopes}

mutual

theorem exists_expression_iff (hshows : Shows visible scopes) : ∀ {e : Expr},
    (∃ code, expression abi scopes e = .ok code) ↔ ∀ o ∈ e.occurrences visible, o.Lowers abi
  | .missing => by simp [expression, Expr.occurrences, Occurrence.Lowers]
  | .constant c => by simp [expression, Expr.occurrences, Occurrence.Lowers]
  | .variable r => by
    rw [expression, load, Expr.occurrences, List.forall_mem_singleton]
    exact exists_ok_map_iff.trans hshows.exists_resolve_iff
  | .binary loc op left right => by
    rw [expression, Expr.occurrences, List.forall_mem_append, List.forall_mem_append,
      List.forall_mem_singleton]
    refine exists_ok_bind_iff (exists_expression_iff hshows) fun _ _ => ?_
    exact exists_ok_bind_iff (exists_expression_iff hshows) fun _ _ => exists_ok_map_iff
  | .unary loc op operand => by
    rw [expression, Expr.occurrences, List.forall_mem_append, List.forall_mem_singleton]
    exact exists_ok_bind_iff (exists_expression_iff hshows) fun _ _ => exists_ok_map_iff
  | .call loc callee args => by
    rw [expression, Expr.occurrences, List.forall_mem_cons]
    exact exists_ok_bind_iff Unique.exists_iff fun _ _ =>
      exists_ok_map_iff.trans (exists_arguments_iff hshows)

theorem exists_arguments_iff (hshows : Shows visible scopes) {callee : String} :
    ∀ {es : List Expr} {i : ℕ},
    (∃ code, arguments abi scopes callee i es = .ok code) ↔ ∀ o ∈ argumentsOccurrences visible es,
      o.Lowers abi
  | [], _ => by simp [arguments, argumentsOccurrences]
  | e :: es, i => by
    rw [arguments, argumentsOccurrences, List.forall_mem_append]
    exact exists_ok_bind_iff (exists_expression_iff hshows) fun _ _ =>
      exists_ok_map_iff.trans (exists_arguments_iff hshows)

end

end

section

variable {ctx : Context}

mutual

theorem succeeds_statement_iff :
    ∀ {s : Stmt} {visible : List String} {scopes : Scopes} {p : Progress},
    Shows visible scopes →
      (Succeeds (statement ctx scopes s) p ↔ ∀ o ∈ s.occurrences visible, o.Lowers ctx.abi)
  | .block b, _, _, _, h => succeeds_block_iff h
  | .print loc target, _, _, _, h => by
    rw [statement, printCode]
    exact succeeds_lift_iff.trans (exists_ok_map_iff.trans (exists_expression_iff h))
  | .read loc target, _, _, _, h => by
    rw [statement, readCode, Stmt.occurrences, List.forall_mem_singleton]
    exact succeeds_lift_iff.trans (exists_ok_map_iff.trans h.exists_resolve_iff)
  | .assign loc target value, _, _, _, h => by
    rw [statement, assignCode, Stmt.occurrences, List.forall_mem_cons]
    refine succeeds_lift_iff.trans (exists_ok_bind_iff h.exists_resolve_iff fun _ _ => ?_)
    exact exists_ok_map_iff.trans (exists_expression_iff h)
  | .branch loc condition yes no, _, _, _, h => by
    rw [statement, Stmt.occurrences, List.forall_mem_append, List.forall_mem_append]
    refine Succeeds.bind_iff_right succeeds_newLabel fun _ _ _ => ?_
    refine Succeeds.bind_iff_right succeeds_newLabel fun _ _ _ => ?_
    refine Succeeds.bind_iff
      (succeeds_lift_iff.trans (exists_ok_map_iff.trans (exists_expression_iff h))) fun _ _ _ => ?_
    refine Succeeds.bind_iff (succeeds_optionalBlock_iff h) fun _ _ _ => ?_
    exact (Succeeds.bind_iff_left fun _ _ _ => succeeds_pure _).trans (succeeds_optionalBlock_iff h)
  | .loop loc condition body, _, _, _, h => by
    rw [statement, Stmt.occurrences, List.forall_mem_append]
    refine Succeeds.bind_iff_right succeeds_newLabel fun _ _ _ => ?_
    refine Succeeds.bind_iff_right succeeds_newLabel fun _ _ _ => ?_
    refine Succeeds.bind_iff
      (succeeds_lift_iff.trans (exists_ok_map_iff.trans (exists_expression_iff h))) fun _ _ _ => ?_
    exact (Succeeds.bind_iff_left fun _ _ _ => succeeds_pure _).trans (succeeds_optionalBlock_iff h)
  | .count loc scope var lower upper body, _, _, _, h => by
    rw [statement, Stmt.occurrences, List.forall_mem_cons, List.forall_mem_cons,
      List.forall_mem_cons]
    refine Succeeds.bind_iff succeeds_lift_iff fun values _ _ => ?_
    obtain ⟨lo, hi⟩ := values
    refine Succeeds.bind_iff succeeds_install_iff fun made _ hmade => ?_
    obtain ⟨scope', fill⟩ := made
    have hinside := h.install hmade
    refine Succeeds.bind_iff (succeeds_lift_iff.trans hinside.exists_resolve_iff) fun _ _ _ => ?_
    refine Succeeds.bind_iff_right succeeds_newLabel fun _ _ _ => ?_
    refine Succeeds.bind_iff_right succeeds_newLabel fun _ _ _ => ?_
    exact (Succeeds.bind_iff_left fun _ _ _ => succeeds_pure _).trans
      (succeeds_optionalBlock_iff hinside)
  | .ret loc value, _, _, _, h => by
    rw [statement, returnCode]
    exact succeeds_lift_iff.trans (exists_ok_map_iff.trans (exists_expression_iff h))
  | .call loc callee args, _, _, _, h => by
    rw [statement]
    refine (Succeeds.bind_iff_left fun _ _ _ => succeeds_pure _).trans ?_
    exact succeeds_lift_iff.trans (exists_expression_iff h)

theorem succeeds_block_iff : ∀ {b : Block} {visible : List String} {scopes : Scopes} {p : Progress},
    Shows visible scopes →
      (Succeeds (block ctx scopes b) p ↔ ∀ o ∈ b.occurrences visible, o.Lowers ctx.abi)
  | .mk loc scope decls body, _, _, _, h => by
    rw [block, Block.occurrences, List.forall_mem_cons]
    refine Succeeds.bind_iff succeeds_install_iff fun made _ hmade => ?_
    obtain ⟨scope', fill⟩ := made
    exact (Succeeds.bind_iff_left fun _ _ _ => succeeds_pure _).trans
      (succeeds_statements_iff (h.install hmade))

theorem succeeds_optionalBlock_iff :
    ∀ {b : Option Block} {visible : List String} {scopes : Scopes} {p : Progress},
    Shows visible scopes →
    (Succeeds (optionalBlock ctx scopes b) p ↔ ∀ o ∈ blockOccurrences visible b, o.Lowers ctx.abi)
  | none, _, _, _, _ => iff_of_true (succeeds_pure _) fun _ ho => absurd ho List.not_mem_nil
  | some _, _, _, _, h => succeeds_block_iff h

theorem succeeds_statements_iff :
    ∀ {ss : List Stmt} {visible : List String} {scopes : Scopes} {p : Progress},
    Shows visible scopes →
    (Succeeds (statements ctx scopes ss) p ↔ ∀ o ∈ statementsOccurrences visible ss,
      o.Lowers ctx.abi)
  | [], _, _, _, _ => iff_of_true (succeeds_pure _) fun _ ho => absurd ho List.not_mem_nil
  | s :: ss, _, _, _, h => by
    rw [statements, statementsOccurrences, List.forall_mem_append]
    refine Succeeds.bind_iff (succeeds_statement_iff h) fun _ _ _ => ?_
    exact (Succeeds.bind_iff_left fun _ _ _ => succeeds_pure _).trans (succeeds_statements_iff h)

end

end

end Lower

end RvBackend
