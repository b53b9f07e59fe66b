import Mathlib.Tactic
import RvBackend.Scope.Chain

/-! # Chains that are as they were

A chain is as it was if the same scopes are open and their tables are unchanged. A scope that is
opened with a new table can be closed again as soon as the chain is as it was behind its opening,
and then it is as it was before.

* `Chain.Restored c c'`: the chain `c'` is as `c` was.
* `Chain.opened`: a chain with a new table that is open.
* `Chain.exit_of_restored`: such a table can be closed. -/

namespace RvBackend

namespace Indexed

/-- The declarations of a table, without its names. -/
def toTable (t : Indexed) : Table := ⟨t.entries⟩

theorem entries_foldl_add (es : List Entry) (t : Indexed) :
    (es.foldl add t).entries = t.entries ++ es := by
  induction es generalizing t with
  | nil => exact (List.append_nil _).symm
  | cons e es ih =>
    rw [List.foldl_cons, ih, add, List.append_assoc]
    rfl

/-- The declarations that were added are those of the scope. -/
theorem toTable_ofTable (t : Table) : (ofTable t).toTable = t := by
  rw [toTable, ofTable, entries_foldl_add]
  rfl

end Indexed

namespace Chain

/-- The tables of the open scopes, the innermost first. -/
def scopes (c : Chain) : Scopes :=
  c.frames.filterMap fun t => (t.bind (c.store[·]?)).map Indexed.toTable

/-- The table at an index gets other contents. -/
def put (c : Chain) (i : ℕ) (t : Option Table) : Chain :=
  match c.tables[i]?.join, t with
  | some n, some t => { c with store := c.store.set n (.ofTable t) }
  | _, _ => c

/-- All open tables have contents. -/
def Formed (c : Chain) : Prop := ∀ n, some n ∈ c.frames → n < c.store.length

/-- A chain as it was: the same scopes are open, and their tables are unchanged. Tables that have
been at hand since do not matter. -/
structure Restored (c c' : Chain) : Prop where
  frames : c'.frames = c.frames
  tables : c.tables <+: c'.tables
  store : c.store <+: c'.store

theorem Restored.refl (c : Chain) : Restored c c := ⟨rfl, List.prefix_rfl, List.prefix_rfl⟩

theorem Restored.trans {c c' c'' : Chain} (h : Restored c c') (h' : Restored c' c'') :
    Restored c c'' :=
  ⟨h'.frames.trans h.frames, h.tables.trans h'.tables, h.store.trans h'.store⟩

theorem Formed.of_restored {c c' : Chain} (hc : c.Formed) (h : Restored c c') : c'.Formed := by
  intro n hn
  rw [h.frames] at hn
  exact (hc n hn).trans_le h.store.length_le

/-- The same tables are visible. -/
theorem Restored.scopes {c c' : Chain} (h : Restored c c') (hc : c.Formed) :
    c'.scopes = c.scopes := by
  obtain ⟨more, hstore⟩ := h.store
  unfold Chain.scopes
  rw [h.frames, ← hstore]
  refine List.filterMap_congr fun t ht => ?_
  cases t with
  | none => rfl
  | some n =>
    show (c.store ++ more)[n]?.map Indexed.toTable = c.store[n]?.map Indexed.toTable
    rw [List.getElem?_append_left (hc n ht)]

/-- The number that a new table gets. -/
def newNumber (c : Chain) (t : Option Table) : Option ℕ := t.map fun _ => c.store.length

/-- The chain with a new table at hand and open. -/
def opened (c : Chain) (t : Option Table) : Chain :=
  { tables := c.tables ++ [c.newNumber t], store := c.store ++ (t.map Indexed.ofTable).toList,
    frames := c.newNumber t :: c.frames }

theorem enter_place (c : Chain) (t : Option Table) :
    (c.place t).enter c.tables.length = .ok (c.opened t) := by
  cases t <;> simp [place, enter, table, opened, newNumber]

theorem Formed.opened {c : Chain} (hc : c.Formed) (t : Option Table) : (c.opened t).Formed := by
  intro n hn
  have hlength : (c.opened t).store.length = c.store.length +
      (t.map Indexed.ofTable).toList.length :=
    List.length_append
  rcases List.mem_cons.mp hn with hn | hn
  · cases t with
    | none => cases hn
    | some t => cases hn; simp [hlength]
  · have := hc n hn
    omega

/-- Without the new scope, the chain is as it was. -/
theorem restored_opened (c : Chain) (t : Option Table) :
    Restored c { c.opened t with frames := c.frames } :=
  ⟨rfl, List.prefix_append _ _, List.prefix_append _ _⟩

theorem scopes_opened {c : Chain} (hc : c.Formed) (t : Option Table) :
    (c.opened t).scopes = Scopes.enter c.scopes t := by
  have houter := (restored_opened c t).scopes hc
  cases t with
  | none => exact houter
  | some t =>
    have hnew : (c.store ++ [Indexed.ofTable t])[c.store.length]? = some (.ofTable t) :=
      List.getElem?_concat_length
    rw [Scopes.enter, ← houter]
    show List.filterMap _ (some c.store.length :: c.frames) = _
    rw [List.filterMap_cons]
    simp only [Option.bind_some, opened, Option.map_some, Option.toList_some, hnew,
      Indexed.toTable_ofTable]
    rfl

/-- The new table gets other contents. -/
theorem Restored.put {c c' : Chain} {t t' : Option Table} (h : Restored (c.opened t) c')
    (hsome : t.isSome = t'.isSome) :
    Restored (c.opened t') (c'.put c.tables.length t') := by
  obtain ⟨moreTables, htables⟩ := h.tables
  obtain ⟨more, hstore⟩ := h.store
  have hnumber : c.newNumber t = c.newNumber t' := by
    cases t <;> cases t' <;> first | rfl | cases hsome
  have hopened : (c.opened t').tables = (c.opened t).tables :=
    congrArg (c.tables ++ [·]) hnumber.symm
  have hframes : (c.opened t').frames = (c.opened t).frames := congrArg (· :: c.frames) hnumber.symm
  have hat : c'.tables[c.tables.length]?.join = c.newNumber t := by
    rw [← htables, show (c.opened t).tables = c.tables ++ [c.newNumber t] from rfl]
    simp
  unfold Chain.put
  rw [hat]
  cases t with
  | none =>
    cases t' with
    | none => exact h
    | some _ => cases hsome
  | some t =>
    cases t' with
    | none => cases hsome
    | some t' =>
      refine ⟨h.frames.trans hframes.symm, hopened ▸ h.tables, more, ?_⟩
      show c.store ++ [Indexed.ofTable t'] ++ more = c'.store.set c.store.length (.ofTable t')
      rw [← hstore]
      simp [opened]

/-- A scope that has been opened can be closed, whatever has been opened and closed in between. -/
theorem exit_of_restored {c c' : Chain} {t : Option Table} (h : Restored (c.opened t) c') :
    c'.exit c.tables.length = .ok { c' with frames := c.frames } ∧
      Restored c { c' with frames := c.frames } := by
  obtain ⟨more, htables⟩ := h.tables
  have htable : c'.table c.tables.length = .ok (c.newNumber t) := by
    have hat : c'.tables[c.tables.length]? = some (c.newNumber t) := by
      rw [← htables]
      show ((c.tables ++ [c.newNumber t]) ++ more)[c.tables.length]? = _
      rw [List.append_assoc, List.getElem?_append_right le_rfl, Nat.sub_self]
      rfl
    simp [table, hat]
  have hframes : c'.frames = c.newNumber t :: c.frames := h.frames
  refine ⟨?_, rfl, ?_, ?_⟩
  · rw [exit, htable]
    simp only [hframes]
    exact if_pos rfl
  · exact (restored_opened c t).tables.trans h.tables
  · exact (restored_opened c t).store.trans h.store

end Chain

end RvBackend
