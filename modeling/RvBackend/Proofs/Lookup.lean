import Mathlib.Tactic

/-! # Tables of names

A table is a list of names with what they stand for, and the first entry of a name counts.

* `lookup_mem`, `lookup_of_mem`: what is found is in the table, and if no name comes twice, then
  what is in the table is found.
* `lookup_eq_none_iff`: the names that are not found. -/

namespace RvBackend

variable {α : Type} {name : String} {a : α} {table : List (String × α)}

theorem lookup_mem (h : table.lookup name = some a) : (name, a) ∈ table := by
  induction table with
  | nil => cases h
  | cons entry table ih =>
    obtain ⟨key, b⟩ := entry
    rw [List.lookup_cons] at h
    split at h
    · next heq =>
      obtain rfl := eq_of_beq heq
      cases h
      exact List.mem_cons_self
    · exact List.mem_cons_of_mem _ (ih h)

theorem lookup_of_mem (hnodup : (table.map Prod.fst).Nodup) (h : (name, a) ∈ table) :
    table.lookup name = some a := by
  induction table with
  | nil => exact absurd h List.not_mem_nil
  | cons entry table ih =>
    rw [List.map_cons, List.nodup_cons] at hnodup
    rcases List.mem_cons.mp h with rfl | hmem
    · exact List.lookup_cons_self
    · have hne : name ≠ entry.1 := by
        rintro rfl
        exact hnodup.1 (List.mem_map.mpr ⟨_, hmem, rfl⟩)
      rw [List.lookup_cons, beq_false_of_ne hne]
      exact ih hnodup.2 hmem

theorem lookup_eq_none_iff : table.lookup name = none ↔ name ∉ table.map Prod.fst := by
  rw [List.lookup_eq_none_iff]
  simp only [List.mem_map, not_exists, not_and, bne_iff_ne]
  exact ⟨fun h entry hentry heq => h entry hentry heq.symm,
    fun h entry hentry heq => h entry hentry heq.symm⟩

theorem mem_of_lookup (h : (table.lookup name).isSome = true) : name ∈ table.map Prod.fst := by
  by_contra hnot
  rw [lookup_eq_none_iff.mpr hnot] at h
  cases h

theorem lookup_append_none {xs ys : List (String × α)} (hxs : name ∉ xs.map Prod.fst)
    (hys : ys.lookup name = none) : (xs ++ ys).lookup name = none := by
  rw [List.lookup_append, lookup_eq_none_iff.mpr hxs, hys]
  rfl

end RvBackend
