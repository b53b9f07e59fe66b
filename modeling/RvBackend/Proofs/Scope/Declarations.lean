import RvBackend.Proofs.Scope.Restored

/-! # Chains as lists of declarations

A chain keeps a map of names beside the entries of each table, and its tables may grow while they
are open. Whatever is done with it, a name stands for the entry that was declared last in the list
of all visible declarations, which goes from the outermost scope to the innermost one.

* `Indexed.Coherent`: the map of a table says what its entries say. Each declaration keeps it.
* `Chain.Op`, `Chain.run`: what can be done with a chain, and one after the other.
* `Chain.declarations`: the list of all visible declarations.
* `Outline`: the specification of a chain. It has no maps, and keeps what is visible up to date: to
  open a table puts its declarations behind the others, to close it takes them away, a declaration
  goes into the table wherever it is open, and a new table changes nothing that is visible.
* `Chain.outline_run`: operations on a chain are those of its specification.
* `Chain.run_refines`: after any operations, look-ups and the closing of scopes are those of the
  list of declarations, and the list is that of the specification. -/

namespace RvBackend

/-! ### Tables and their names -/

namespace Indexed

/-- A name stands for the last entry that has it. -/
def Coherent (t : Indexed) : Prop := ∀ name, t.find? name = t.entries.reverse.find? (·.name == name)

/-- A table without a map has no names, and neither has one with an empty map. -/
theorem coherent_empty (names : Option NameMap) (h : names = none ∨ names = some {}) :
    Coherent { entries := [], names } := by
  intro name
  rcases h with rfl | rfl
  · rfl
  · exact Std.HashMap.getElem?_empty

theorem getElem?_getD_names (t : Indexed) (name : String) :
    (t.names.getD {})[name]? = t.find? name := by
  cases hnames : t.names with
  | none => simp [find?, hnames]
  | some m => simp [find?, hnames]

/-- **One more declaration** hides those of the same name in front of it, and no others. -/
theorem Coherent.add {t : Indexed} (h : t.Coherent) (e : Entry) : (t.add e).Coherent := by
  intro name
  have hfind : (t.add e).find? name = if e.name == name then some e else t.find? name := by
    show ((t.names.getD {}).insert e.name e)[name]? = _
    rw [Std.HashMap.getElem?_insert, getElem?_getD_names]
  have hentries : (t.add e).entries.reverse = e :: t.entries.reverse := by simp [Indexed.add]
  rw [hfind, hentries, List.find?_cons, h name]
  cases e.name == name <;> rfl

theorem Coherent.foldl_add (es : List Entry) {t : Indexed} (h : t.Coherent) :
    (es.foldl Indexed.add t).Coherent := by
  induction es generalizing t with
  | nil => exact h
  | cons e es ih => exact ih (h.add e)

theorem coherent_ofTable (t : Table) : (ofTable t).Coherent :=
  (coherent_empty _ (.inr rfl)).foldl_add t.entries

end Indexed

namespace Chain

/-! ### Operations -/

/-- What can be done with a chain. Tables are named by their index. -/
inductive Op where
  | enter (i : ℤ)
  | exit (i : ℤ)
  | add (i : ℤ) (e : Entry)
  /-- A new table at an index: nothing is declared in it, and it has no map. -/
  | renew (i : ℤ)
  | lookup (name : String)

/-- The chain behind an operation, unless it is refused. -/
def perform (c : Chain) : Op → Except ChainError Chain
  | .enter i => c.enter i
  | .exit i => c.exit i
  | .add i e => c.add i e
  | .renew i => c.renew i
  | .lookup _ => .ok c

/-- The chain behind an operation; one that is refused leaves it as it was. -/
def after (c : Chain) (op : Op) : Chain := (c.perform op).toOption.getD c

/-- The chain behind some operations. -/
def run (c : Chain) (ops : List Op) : Chain := ops.foldl after c

/-- The maps of all tables are coherent. -/
def Coherent (c : Chain) : Prop := ∀ t ∈ c.store, t.Coherent

theorem Coherent.place {c : Chain} (h : c.Coherent) (t : Option Table) : (c.place t).Coherent := by
  cases t with
  | none => exact h
  | some t =>
    intro t' ht'
    rcases List.mem_append.mp ht' with ht' | ht'
    · exact h t' ht'
    · obtain rfl := List.mem_singleton.mp ht'
      exact Indexed.coherent_ofTable t

theorem Coherent.foldl_place (ts : List (Option Table)) {c : Chain} (h : c.Coherent) :
    (ts.foldl Chain.place c).Coherent := by
  induction ts generalizing c with
  | nil => exact h
  | cons t ts ih => exact ih (h.place t)

theorem coherent_ofTables (ts : List (Option Table)) : (ofTables ts).Coherent :=
  Coherent.foldl_place ts fun _ ht => absurd ht List.not_mem_nil

/-! ### Closing a scope -/

section Exit

variable {c : Chain} {i : ℤ} {t innermost : Option ℕ} {outer : List (Option ℕ)}

theorem exit_innermost (ht : c.table i = .ok t) (hframes : c.frames = t :: outer) :
    c.exit i = .ok { c with frames := outer } := by
  rw [exit, ht]
  simp only [hframes]
  exact if_pos rfl

theorem exit_nothing (ht : c.table i = .ok t) (hframes : c.frames = []) :
    c.exit i = .error .nothingOpen := by
  rw [exit, ht]
  simp only [hframes]
  rfl

theorem exit_other (ht : c.table i = .ok t) (hframes : c.frames = innermost :: outer)
    (hne : innermost ≠ t) :
    c.exit i = .error (.unbalanced c.depth) := by
  rw [exit, ht]
  simp only [hframes]
  exact if_neg hne

end Exit

/-! ### What an operation does to a chain -/

/-- **What an operation can do**: open the table at its index, close that table if it is the
innermost one, declare one more entry in it, put a new table at the index, or nothing. -/
theorem perform_eq_ok {c c' : Chain} {op : Op} (h : c.perform op = .ok c') :
    (∃ i t, op = .enter i ∧ c.table i = .ok t ∧ c' = { c with frames := t :: c.frames }) ∨
      (∃ i t outer, op = .exit i ∧ c.table i = .ok t ∧ c.frames = t :: outer ∧
        c' = { c with frames := outer }) ∨
      (∃ i n e, op = .add i e ∧ c.table i = .ok (some n) ∧
        c' = { c with store := c.store.modify n (·.add e) }) ∨
      (∃ i t, op = .renew i ∧ c.table i = .ok t ∧ c' =
        { c with
          tables := c.tables.set i.toNat (some c.store.length)
          store := c.store ++ [{}] }) ∨
      (∃ name, op = .lookup name ∧ c' = c) := by
  cases op with
  | enter i =>
    rw [perform, enter] at h
    cases ht : c.table i with
    | error e => rw [ht] at h; cases h
    | ok t => rw [ht] at h; cases h; exact .inl ⟨i, t, rfl, ht, rfl⟩
  | exit i =>
    rw [perform] at h
    cases ht : c.table i with
    | error e => rw [exit, ht] at h; cases h
    | ok t =>
      cases hframes : c.frames with
      | nil => rw [exit_nothing ht hframes] at h; cases h
      | cons innermost outer =>
        by_cases hsame : innermost = t
        · rw [exit_innermost ht (hsame ▸ hframes)] at h
          cases h
          exact .inr (.inl ⟨i, t, outer, rfl, ht, by rw [hsame], rfl⟩)
        · rw [exit_other ht hframes hsame] at h
          cases h
  | add i e =>
    rw [perform, add] at h
    cases ht : c.table i with
    | error e => rw [ht] at h; cases h
    | ok t =>
      rw [ht] at h
      cases t with
      | none => cases h
      | some n => cases h; exact .inr (.inr (.inl ⟨i, n, e, rfl, ht, rfl⟩))
  | renew i =>
    rw [perform, renew] at h
    cases ht : c.table i with
    | error e => rw [ht] at h; cases h
    | ok t => rw [ht] at h; cases h; exact .inr (.inr (.inr (.inl ⟨i, t, rfl, ht, rfl⟩)))
  | lookup name =>
    cases h
    exact .inr (.inr (.inr (.inr ⟨name, rfl, rfl⟩)))

theorem Coherent.add {c : Chain} (h : c.Coherent) (n : ℕ) (e : Entry) :
    ∀ t ∈ c.store.modify n (·.add e), t.Coherent := by
  intro t ht
  obtain ⟨k, hk, rfl⟩ := List.getElem_of_mem ht
  rw [List.length_modify] at hk
  rw [List.getElem_modify]
  split
  · exact (h _ (List.getElem_mem hk)).add e
  · exact h _ (List.getElem_mem hk)

/-- **One operation** keeps the maps coherent. -/
theorem Coherent.after {c : Chain} (h : c.Coherent) (op : Op) : (c.after op).Coherent := by
  unfold Chain.after
  cases hperform : c.perform op with
  | error e => exact h
  | ok c' =>
    show c'.Coherent
    obtain ⟨i, t, -, -, rfl⟩ | ⟨i, t, outer, -, -, -, rfl⟩ | ⟨i, n, e, -, -, rfl⟩ |
      ⟨i, t, -, -, rfl⟩ | ⟨name, -, rfl⟩ := perform_eq_ok hperform
    · exact h
    · exact h
    · exact h.add n e
    · intro t ht
      rcases List.mem_append.mp ht with ht | ht
      · exact h t ht
      · obtain rfl := List.mem_singleton.mp ht
        exact Indexed.coherent_empty _ (.inl rfl)
    · exact h

/-- **All operations**, one after the other. -/
theorem Coherent.run {c : Chain} (h : c.Coherent) (ops : List Op) : (c.run ops).Coherent := by
  induction ops generalizing c with
  | nil => exact h
  | cons op ops ih => exact ih (h.after op)

/-! ### All visible declarations -/

/-- The entries of the open tables, from the outermost scope to the innermost one. -/
def declarations (c : Chain) : List Entry := c.frames.reverse.flatMap c.entriesOf

/-- The last entry of a name in a list of declarations. -/
def IsLast (name : String) (es : List Entry) (e : Entry) : Prop :=
  ∃ front back, es = front ++ e :: back ∧ e.name = name ∧ ∀ e' ∈ back, e'.name ≠ name

theorem find?_reverse_eq_some_iff {name : String} {es : List Entry} {e : Entry} :
    es.reverse.find? (·.name == name) = some e ↔ IsLast name es e := by
  rw [List.find?_eq_some_iff_append]
  constructor
  · rintro ⟨hname, back, front, hes, hback⟩
    refine ⟨front.reverse, back.reverse, ?_, eq_of_beq hname, fun e' he' => ?_⟩
    · rw [← List.reverse_reverse es, hes]
      simp
    · simpa using hback e' (List.mem_reverse.mp he')
  · rintro ⟨front, back, rfl, hname, hback⟩
    refine ⟨beq_iff_eq.mpr hname, back.reverse, front.reverse, by simp, fun e' he' => ?_⟩
    simpa using hback e' (List.mem_reverse.mp he')

theorem findIn_eq {c : Chain} (h : c.Coherent) (name : String) (t : Option ℕ) :
    c.findIn name t = (c.entriesOf t).reverse.find? (·.name == name) := by
  unfold findIn entriesOf
  cases hstore : t.bind (c.store[·]?) with
  | none => rfl
  | some t' =>
    obtain ⟨n, -, hn⟩ := Option.bind_eq_some_iff.mp hstore
    exact h t' (List.mem_of_getElem? hn) name

/-- **A name stands for the last of all visible declarations that have it.** -/
theorem lookup_eq {c : Chain} (h : c.Coherent) (name : String) :
    c.lookup name = c.declarations.reverse.find? (·.name == name) := by
  have hreverse : c.declarations.reverse = c.frames.flatMap fun t => (c.entriesOf t).reverse := by
    rw [declarations, List.reverse_flatMap, List.reverse_reverse]
    rfl
  rw [hreverse, List.find?_flatMap, lookup]
  congr 1
  funext t
  exact findIn_eq h name t

/-- A chain does what the list of all visible declarations says. -/
structure Refines (c : Chain) : Prop where
  /-- A name that is found is the last declaration of it. -/
  found : ∀ name e, c.lookup name = some e ↔ IsLast name c.declarations e
  /-- A name is not found exactly if there is no declaration of it. -/
  absent : ∀ name, c.lookup name = none ↔ ∀ e ∈ c.declarations, e.name ≠ name
  /-- To close a scope takes away the innermost one and nothing else, or it is refused and changes
  nothing. -/
  closed : ∀ i t, c.table i = .ok t →
    (∃ innermost outer, c.frames = innermost :: outer ∧ c.exit i = .ok { c with frames := outer }) ∨
      (∃ e, c.exit i = .error e) ∧ c.after (.exit i) = c
  /-- It is refused exactly if no scope is open, or another one is the innermost. -/
  refused : ∀ i t, c.table i = .ok t →
    ((∃ e, c.exit i = .error e) ↔ c.frames = [] ∨ ∃ innermost ∈ c.frames.head?, innermost ≠ t)

theorem after_of_error {c : Chain} {op : Op} {e : ChainError} (h : c.perform op = .error e) :
    c.after op = c := by
  rw [after, h]
  rfl

theorem Coherent.refines {c : Chain} (h : c.Coherent) : c.Refines where
  found name e := by rw [lookup_eq h, find?_reverse_eq_some_iff]
  absent name := by
    rw [lookup_eq h, List.find?_eq_none]
    simp
  closed i t ht := by
    cases hframes : c.frames with
    | nil =>
      have hexit := exit_nothing ht hframes
      exact .inr ⟨⟨_, hexit⟩, after_of_error hexit⟩
    | cons innermost outer =>
      by_cases hsame : innermost = t
      · exact .inl ⟨innermost, outer, rfl, exit_innermost ht (hsame ▸ hframes)⟩
      · have hexit := exit_other ht hframes hsame
        exact .inr ⟨⟨_, hexit⟩, after_of_error hexit⟩
  refused i t ht := by
    cases hframes : c.frames with
    | nil => simp [exit_nothing ht hframes]
    | cons innermost outer =>
      by_cases hsame : innermost = t
      · simp [exit_innermost ht (hsame ▸ hframes), hsame]
      · simp [exit_other ht hframes hsame, hsame]

end Chain

/-! ### The specification -/

/-- What has been declared, and what of it is visible. -/
structure Outline where
  /-- The table at each index, by its number; `none` where there is no table. -/
  tables : List (Option ℕ)
  /-- What has been declared in each table that there has been. -/
  contents : List (List Entry)
  /-- The open tables with what has been declared in them, the outermost one first. -/
  blocks : List (Option ℕ × List Entry)

namespace Outline

/-- The number of the table at an index. -/
def table? (o : Outline) : ℤ → Option (Option ℕ)
  | .ofNat n => o.tables[n]?
  | .negSucc _ => none

/-- What has been declared in a table. -/
def contentsOf (o : Outline) (t : Option ℕ) : List Entry := (t.bind (o.contents[·]?)).getD []

/-- All visible declarations. -/
def visible (o : Outline) : List Entry := o.blocks.flatMap Prod.snd

/-- One more open table: its declarations come behind all others. -/
def enter (o : Outline) (t : Option ℕ) : Outline :=
  { o with blocks := o.blocks ++ [(t, o.contentsOf t)] }

/-- The innermost table is closed, and its declarations are no longer visible; another one cannot be
closed. -/
def exit (o : Outline) (t : Option ℕ) : Outline :=
  if o.blocks.getLast?.map Prod.fst = some t then { o with blocks := o.blocks.dropLast } else o

/-- A block with one more declaration, if it is that of a table. -/
def addTo (n : ℕ) (e : Entry) (b : Option ℕ × List Entry) : Option ℕ × List Entry :=
  (b.1, if b.1 = some n then b.2 ++ [e] else b.2)

/-- One more declaration in a table, which is visible wherever the table is open. -/
def add (o : Outline) (n : ℕ) (e : Entry) : Outline :=
  { o with contents := o.contents.modify n (· ++ [e]), blocks := o.blocks.map (addTo n e) }

/-- A new table at an index; what is visible stays. -/
def renew (o : Outline) (i : ℤ) : Outline :=
  { o with
    tables := o.tables.set i.toNat (some o.contents.length)
    contents := o.contents ++ [[]] }

/-- The specification behind an operation. -/
def after (o : Outline) : Chain.Op → Outline
  | .enter i => (o.table? i).elim o o.enter
  | .exit i => (o.table? i).elim o o.exit
  | .add i e => (o.table? i).join.elim o (o.add · e)
  | .renew i => (o.table? i).elim o fun _ => o.renew i
  | .lookup _ => o

/-- The specification behind some operations. -/
def run (o : Outline) (ops : List Chain.Op) : Outline := ops.foldl after o

end Outline

namespace Chain

/-- The specification that a chain meets. -/
def outline (c : Chain) : Outline where
  tables := c.tables
  contents := c.store.map Indexed.entries
  blocks := c.frames.reverse.map fun t => (t, c.entriesOf t)

/-- The tables at hand and the open ones have contents. -/
structure Numbered (c : Chain) : Prop where
  tables : ∀ n, some n ∈ c.tables → n < c.store.length
  frames : c.Formed

theorem visible_outline (c : Chain) : c.outline.visible = c.declarations := by
  rw [Outline.visible, outline, List.flatMap_map]
  rfl

theorem contentsOf_outline (c : Chain) (t : Option ℕ) : c.outline.contentsOf t = c.entriesOf t := by
  cases t with
  | none => rfl
  | some n =>
    show (c.store.map Indexed.entries)[n]?.getD [] = (c.store[n]?.map Indexed.entries).getD []
    rw [List.getElem?_map]

theorem table_of_table? {c : Chain} {i : ℤ} {t : Option ℕ} (h : c.outline.table? i = some t) :
    c.table i = .ok t := by
  cases i with
  | ofNat n =>
    show c.tables[n]?.elim (Except.error ChainError.noTable) Except.ok = _
    rw [show c.tables[n]? = some t from h]
    rfl
  | negSucc n => cases h

theorem table_of_table?_none {c : Chain} {i : ℤ} (h : c.outline.table? i = none) :
    c.table i = .error .noTable := by
  cases i with
  | ofNat n =>
    show c.tables[n]?.elim (Except.error ChainError.noTable) Except.ok = _
    rw [show c.tables[n]? = none from h]
    rfl
  | negSucc n => rfl

theorem mem_tables_of_table {c : Chain} {i : ℤ} {t : Option ℕ} (h : c.table i = .ok t) :
    t ∈ c.tables := by
  cases i with
  | ofNat n =>
    rw [table] at h
    cases ht : c.tables[n]? with
    | none => rw [ht] at h; cases h
    | some t' => rw [ht] at h; cases h; exact List.mem_of_getElem? ht
  | negSucc n => cases h

theorem after_of_ok {c c' : Chain} {op : Op} (h : c.perform op = .ok c') : c.after op = c' := by
  rw [after, h]
  rfl

section Step

variable {c : Chain} {i : ℤ} {t : Option ℕ} {n : ℕ} {e : Entry}

/-- **To open a table** makes its declarations visible behind all others. -/
theorem outline_enter (ht : c.table i = .ok t) :
    (c.after (.enter i)).outline = c.outline.enter t := by
  have henter : c.perform (.enter i) = .ok { c with frames := t :: c.frames } := by
    rw [perform, enter, ht]
    rfl
  rw [after_of_ok henter, Outline.enter, contentsOf_outline]
  simp only [outline, List.reverse_cons, List.map_append, List.map_cons, List.map_nil]
  rfl

/-- **To close a table** takes the last declarations away, or changes nothing. -/
theorem outline_exit (ht : c.table i = .ok t) :
    (c.after (.exit i)).outline = c.outline.exit t := by
  have hlast : c.outline.blocks.getLast?.map Prod.fst = c.frames.head? := by
    rw [outline, List.getLast?_map, List.getLast?_reverse, Option.map_map]
    exact Option.map_id'
  rw [Outline.exit, hlast]
  cases hframes : c.frames with
  | nil =>
    have hexit : c.perform (.exit i) = .error .nothingOpen := exit_nothing ht hframes
    rw [after_of_error hexit]
    rfl
  | cons innermost outer =>
    by_cases hsame : innermost = t
    · have hexit : c.perform (.exit i) = .ok { c with frames := outer } :=
        exit_innermost ht (hsame ▸ hframes)
      rw [after_of_ok hexit, List.head?_cons, hsame, if_pos rfl]
      simp only [outline, hframes, List.reverse_cons, List.map_append, List.map_cons, List.map_nil,
        List.dropLast_concat]
      rfl
    · have hexit : c.perform (.exit i) = .error (.unbalanced c.depth) :=
        exit_other ht hframes hsame
      rw [after_of_error hexit, List.head?_cons, if_neg fun heq => hsame (Option.some.inj heq)]

/-- **One more declaration** is visible wherever its table is open. -/
theorem outline_add (ht : c.table i = .ok (some n)) (hn : n < c.store.length) :
    (c.after (.add i e)).outline = c.outline.add n e := by
  have hadd : c.perform (.add i e) = .ok { c with store := c.store.modify n (·.add e) } := by
    rw [perform, add, ht]
    rfl
  have hcontents : (c.store.modify n (·.add e)).map Indexed.entries =
      (c.store.map Indexed.entries).modify n (· ++ [e]) := by
    refine List.ext_getElem? fun k => ?_
    rw [List.getElem?_map, List.getElem?_modify, List.getElem?_modify, List.getElem?_map]
    cases c.store[k]? with
    | none => rfl
    | some t => by_cases hk : n = k <;> simp [hk, Indexed.add]
  have hblock : ∀ t, (t, ({ c with store := c.store.modify n (·.add e) } : Chain).entriesOf t) =
      Outline.addTo n e (t, c.entriesOf t) := by
    intro t
    refine Prod.ext rfl ?_
    cases t with
    | none => rfl
    | some k =>
      show ((c.store.modify n (·.add e))[k]?.map Indexed.entries).getD [] =
        if some k = some n then (c.store[k]?.map Indexed.entries).getD [] ++ [e]
        else (c.store[k]?.map Indexed.entries).getD []
      rw [List.getElem?_modify]
      by_cases hk : n = k
      · subst hk
        rw [List.getElem?_eq_getElem hn]
        simp [Indexed.add]
      · simp [hk, Ne.symm hk]
  rw [after_of_ok hadd, Outline.add]
  simp only [outline, hcontents, List.map_map]
  congr 1
  exact List.map_congr_left fun t _ => hblock t

/-- **A new table** changes nothing that is visible. -/
theorem outline_renew (hc : c.Formed) (ht : c.table i = .ok t) :
    (c.after (.renew i)).outline = c.outline.renew i := by
  have hrenew : c.perform (.renew i) = .ok { c with
      tables := c.tables.set i.toNat (some c.store.length), store := c.store ++ [{}] } := by
    rw [perform, renew, ht]
    rfl
  rw [after_of_ok hrenew, Outline.renew]
  simp only [outline, List.map_append, List.map_cons, List.map_nil, List.length_map]
  congr 1
  refine List.map_congr_left fun t ht => Prod.ext rfl ?_
  cases t with
  | none => rfl
  | some k =>
    have hk := hc k (List.mem_reverse.mp ht)
    show ((c.store ++ [({} : Indexed)])[k]?.map Indexed.entries).getD [] =
      (c.store[k]?.map Indexed.entries).getD []
    rw [List.getElem?_append_left hk]

/-- **One operation** on a chain is the operation on its specification. -/
theorem outline_after (hc : c.Numbered) (op : Op) : (c.after op).outline = c.outline.after op := by
  cases op with
  | enter i =>
    rw [Outline.after]
    cases h : c.outline.table? i with
    | none =>
      have hrefused : c.perform (.enter i) = .error .noTable := by
        rw [perform, enter, table_of_table?_none h]
        rfl
      rw [after_of_error hrefused]
      rfl
    | some t => exact outline_enter (table_of_table? h)
  | exit i =>
    rw [Outline.after]
    cases h : c.outline.table? i with
    | none =>
      have hrefused : c.perform (.exit i) = .error .noTable := by
        rw [perform, exit, table_of_table?_none h]
        rfl
      rw [after_of_error hrefused]
      rfl
    | some t => exact outline_exit (table_of_table? h)
  | add i e =>
    rw [Outline.after]
    cases h : c.outline.table? i with
    | none =>
      have hrefused : c.perform (.add i e) = .error .noTable := by
        rw [perform, add, table_of_table?_none h]
        rfl
      rw [after_of_error hrefused]
      rfl
    | some t =>
      cases t with
      | none =>
        have hrefused : c.perform (.add i e) = .error .noTable := by
          rw [perform, add, table_of_table? h]
          rfl
        rw [after_of_error hrefused]
        rfl
      | some n =>
        exact outline_add (table_of_table? h)
          (hc.tables n (mem_tables_of_table (table_of_table? h)))
  | renew i =>
    rw [Outline.after]
    cases h : c.outline.table? i with
    | none =>
      have hrefused : c.perform (.renew i) = .error .noTable := by
        rw [perform, renew, table_of_table?_none h]
        rfl
      rw [after_of_error hrefused]
      rfl
    | some t => exact outline_renew hc.frames (table_of_table? h)
  | lookup name => rfl

end Step

/-! What an operation can do keeps all tables numbered. -/

theorem Numbered.after {c : Chain} (hc : c.Numbered) (op : Op) : (c.after op).Numbered := by
  unfold Chain.after
  cases hperform : c.perform op with
  | error e => exact hc
  | ok c' =>
    show c'.Numbered
    obtain ⟨i, t, -, ht, rfl⟩ | ⟨i, t, outer, -, -, hframes, rfl⟩ | ⟨i, n, e, -, -, rfl⟩ |
      ⟨i, t, -, -, rfl⟩ | ⟨name, -, rfl⟩ := perform_eq_ok hperform
    · refine ⟨hc.tables, fun n hn => ?_⟩
      rcases List.mem_cons.mp hn with rfl | hn
      · exact hc.tables n (mem_tables_of_table ht)
      · exact hc.frames n hn
    · refine ⟨hc.tables, fun n hn => hc.frames n ?_⟩
      rw [hframes]
      exact List.mem_cons_of_mem _ hn
    · have hlength : (c.store.modify n (·.add e)).length = c.store.length := List.length_modify ..
      exact ⟨fun k hk => hlength ▸ hc.tables k hk, fun k hk => hlength ▸ hc.frames k hk⟩
    · have hlength : (c.store ++ [({} : Indexed)]).length = c.store.length + 1 := by simp
      refine ⟨fun k hk => ?_, fun k hk => ?_⟩
      · show k < (c.store ++ [({} : Indexed)]).length
        rw [hlength]
        rcases List.mem_or_eq_of_mem_set hk with hk | hk
        · exact (hc.tables k hk).trans (Nat.lt_succ_self _)
        · cases hk
          exact Nat.lt_succ_self _
      · show k < (c.store ++ [({} : Indexed)]).length
        rw [hlength]
        exact (hc.frames k hk).trans (Nat.lt_succ_self _)
    · exact hc

/-- **All operations**, one after the other. -/
theorem outline_run {c : Chain} (hc : c.Numbered) (ops : List Op) :
    (c.run ops).outline = c.outline.run ops := by
  induction ops generalizing c with
  | nil => rfl
  | cons op ops ih =>
    have hrun : (c.run (op :: ops)).outline = (c.after op).outline.run ops := ih (hc.after op)
    rw [hrun, outline_after hc]
    rfl

theorem Numbered.place {c : Chain} (hc : c.Numbered) (t : Option Table) : (c.place t).Numbered := by
  cases t with
  | none =>
    refine ⟨fun n hn => hc.tables n ?_, hc.frames⟩
    exact (List.mem_append.mp hn).resolve_right (by simp)
  | some t =>
    have hlength : (c.store ++ [Indexed.ofTable t]).length = c.store.length + 1 := by simp
    refine ⟨fun n hn => ?_, fun n hn => ?_⟩
    · show n < (c.store ++ [Indexed.ofTable t]).length
      rw [hlength]
      rcases List.mem_append.mp hn with hn | hn
      · exact (hc.tables n hn).trans (Nat.lt_succ_self _)
      · cases List.mem_singleton.mp hn
        exact Nat.lt_succ_self _
    · show n < (c.store ++ [Indexed.ofTable t]).length
      rw [hlength]
      exact (hc.frames n hn).trans (Nat.lt_succ_self _)

theorem numbered_ofTables (ts : List (Option Table)) : (ofTables ts).Numbered := by
  have hall : ∀ c : Chain, c.Numbered → (ts.foldl Chain.place c).Numbered := by
    induction ts with
    | nil => exact fun _ hc => hc
    | cons t ts ih => exact fun c hc => ih (c.place t) (hc.place t)
  exact hall {} ⟨fun _ hn => absurd hn List.not_mem_nil, fun _ hn => absurd hn List.not_mem_nil⟩

/-- **After any operations a chain does what the list of all visible declarations says**, whatever
tables there are: with declarations, without a map or none at all. The list is that of the
specification. -/
theorem run_refines (ts : List (Option Table)) (ops : List Op) :
    ((ofTables ts).run ops).Refines ∧
      ((ofTables ts).run ops).declarations = ((ofTables ts).outline.run ops).visible := by
  refine ⟨((coherent_ofTables ts).run ops).refines, ?_⟩
  rw [← visible_outline, outline_run (numbered_ofTables ts)]

end Chain

end RvBackend
