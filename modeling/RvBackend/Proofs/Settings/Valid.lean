import Mathlib.Tactic
import RvBackend.Settings.Basic

/-! # Settings without problems

What `Settings.problems` finds nothing wrong with, as facts about the conventions of generated
code. -/

namespace RvBackend

/-- What is known of conventions whose settings have no problems. -/
structure Abi.Valid (abi : Abi) : Prop where
  frame_pos : 0 < abi.frameSize.toInt
  frame_le : abi.frameSize.toInt ≤ 2032
  frame_dvd : 16 ∣ abi.frameSize.toInt
  slot_ge : 4 ≤ abi.slotSize.toInt
  slot_dvd : 4 ∣ abi.slotSize.toInt
  registers : ∀ r ∈ abi.registers, r ∉ reservedRegisters
  nodup : abi.registers.Nodup
  printHelper : abi.printHelper ≠ ""
  readHelper : abi.readHelper ≠ ""
  entry : abi.entry ≠ ""

theorem Abi.Valid.slot_pos {abi : Abi} (h : abi.Valid) : 0 < abi.slotSize.toInt := by
  have hslot := h.slot_ge
  omega

theorem registerProblems_eq_nil : ∀ {rs seen : List String}, registerProblems seen rs = [] →
    (∀ r ∈ rs, r ∉ reservedRegisters) ∧ rs.Nodup ∧ ∀ r ∈ rs, r ∉ seen
  | [], _, _ => ⟨by simp, .nil, by simp⟩
  | r :: rs, seen, h => by
    rw [registerProblems, List.append_eq_nil_iff, List.append_eq_nil_iff] at h
    obtain ⟨⟨hreserved, hseen⟩, hrest⟩ := h
    obtain ⟨hrs, hnodup, hlater⟩ := registerProblems_eq_nil hrest
    have hr : r ∉ reservedRegisters := by simpa using hreserved
    have hr' : r ∉ seen := by simpa using hseen
    refine ⟨List.forall_mem_cons.mpr ⟨hr, hrs⟩, List.nodup_cons.mpr ⟨?_, hnodup⟩,
      List.forall_mem_cons.mpr ⟨hr', ?_⟩⟩
    · exact fun hmem => hlater r hmem List.mem_cons_self
    · exact fun r' hmem hold => hlater r' hmem (List.mem_cons_of_mem _ hold)

theorem frameProblems_eq_nil {size : Int64} (h : frameProblems size = []) :
    0 < size.toInt ∧ size.toInt ≤ 2032 ∧ 16 ∣ size.toInt := by
  unfold frameProblems at h
  split at h
  · cases h
  · next hform =>
    split at h
    · cases h
    · next hmax =>
      simp only [Bool.or_eq_true, decide_eq_true_eq, bne_iff_ne, ne_eq, not_or, not_not,
        Int64.le_iff_toInt_le, Int64.toInt_zero, not_le] at hform
      simp only [Int64.lt_iff_toInt_lt, not_lt] at hmax
      refine ⟨hform.1, hmax, ?_⟩
      have hmod := congrArg Int64.toInt hform.2
      rw [Int64.toInt_mod] at hmod
      exact Int.dvd_of_tmod_eq_zero hmod

/-- **Settings without problems have valid conventions.** -/
theorem abi_valid {s : Settings} (h : s.problems = []) : s.abi.Valid := by
  simp only [Settings.problems, List.append_eq_nil_iff] at h
  obtain ⟨⟨⟨⟨⟨hframe, hslot⟩, -⟩, hregisters⟩, hhelpers⟩, -⟩ := h
  obtain ⟨hpos, hle, hdvd⟩ := frameProblems_eq_nil hframe
  obtain ⟨hreserved, hnodup, -⟩ := registerProblems_eq_nil hregisters
  have hslot' : 4 ≤ s.abi.slotSize.toInt ∧ 4 ∣ s.abi.slotSize.toInt := by
    split at hslot
    · cases hslot
    · next hform =>
      simp only [Bool.or_eq_true, decide_eq_true_eq, bne_iff_ne, ne_eq, not_or, not_not,
        Int64.lt_iff_toInt_lt, not_lt] at hform
      refine ⟨hform.1, ?_⟩
      have hmod := congrArg Int64.toInt hform.2
      rw [Int64.toInt_mod] at hmod
      exact Int.dvd_of_tmod_eq_zero hmod
  have hhelpers' : s.abi.printHelper ≠ "" ∧ s.abi.readHelper ≠ "" ∧ s.abi.entry ≠ "" := by
    simpa [and_assoc] using hhelpers
  exact ⟨hpos, hle, hdvd, hslot'.1, hslot'.2, hreserved, hnodup, hhelpers'.1, hhelpers'.2.1,
    hhelpers'.2.2⟩

end RvBackend
