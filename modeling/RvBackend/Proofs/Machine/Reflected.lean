import RvBackend.Proofs.Machine.Instructions

/-! # Listings that hold a program

What is found in a listing that holds what a program holds: lines under their labels, and words of
data under theirs.

* `Reflects.codeAt`: the lines of the program stand in the listing.
* `Reflects.address`: the addresses of data.
* `Reflects.word`: the words of data before the program runs. -/

namespace RvBackend

open Asm
  (Line Reads Reflects opsOf labelsOf placesOf dataPlaces constantWords behind withWords dataBase)

namespace Machine

/-! ### Lines -/

/-- Lines stand in a listing if their instructions do and their labels lead there. -/
theorem codeAt_of_reads {code : Listing} : ∀ {ls : List Line} {i : ℕ},
    (∀ k op, (opsOf ls)[k]? = some op → ∃ ins, code.instructions[i + k]? = some ins ∧
      Reads ins op) →
    (∀ x ∈ placesOf i ls, code.codeLabels.lookup x.1 = some x.2) → CodeAt code i ls
  | [], _, _, _ => trivial
  | ⟨.blank, _⟩ :: ls, i, hreads, hlabels => @codeAt_of_reads code ls i hreads hlabels
  | ⟨.label name, _⟩ :: ls, i, hreads, hlabels => by
    have hplaces : ∀ x ∈ (name, i) :: placesOf i ls, code.codeLabels.lookup x.1 = some x.2 :=
      hlabels
    rw [List.forall_mem_cons] at hplaces
    exact ⟨hplaces.1, codeAt_of_reads hreads hplaces.2⟩
  | ⟨.op m os, _⟩ :: ls, i, hreads, hlabels => by
    refine ⟨hreads 0 (m, os) rfl, codeAt_of_reads (fun k op hop => ?_) hlabels⟩
    have hnext := hreads (k + 1) op hop
    rwa [Nat.add_comm k 1, ← Nat.add_assoc] at hnext

end Machine

namespace Asm

open Machine (Listing CodeAt)

variable {p : Program} {code : Listing}

theorem Reflects.codeAt (h : Reflects p code) (hnodup : (labelsOf p.codeLines).Nodup) :
    CodeAt code 0 p.codeLines := by
  refine Machine.codeAt_of_reads (fun k op hop => ?_) fun x hx => ?_
  · obtain ⟨hlt, hval⟩ := List.getElem?_eq_some_iff.mp hop
    have hlt' : k < code.instructions.toList.length := by rw [h.instructions.length_eq]; exact hlt
    refine ⟨code.instructions.toList[k], ?_, ?_⟩
    · rw [Nat.zero_add, ← Array.getElem?_toList, List.getElem?_eq_getElem hlt']
    · rw [← hval]
      exact h.instructions.get hlt' hlt
  · refine lookup_of_mem ?_ ?_
    · rw [← List.nodup_reverse, ← List.map_reverse, h.codeLabels, map_fst_placesOf]
      exact hnodup
    · rw [← List.mem_reverse, h.codeLabels]
      exact hx

theorem Reflects.mem_labels (h : Reflects p code) {name : String} {start : ℕ}
    (hlookup : code.codeLabels.lookup name = some start) : name ∈ labelsOf p.codeLines := by
  rw [← map_fst_placesOf p.codeLines 0, ← h.codeLabels]
  exact List.mem_map_of_mem (List.mem_reverse.mpr (lookup_mem hlookup))

/-! ### Addresses of data -/

/-- The address behind the data of a listing. -/
def dataEnd (code : Listing) : ℤ := dataBase.toNat + 4 * code.dataLabels.length

theorem toNat_behind : ∀ {k : ℕ} {next : UInt32}, next.toNat + 4 * k < 2 ^ 32 →
    (behind next k).toNat = next.toNat + 4 * k
  | 0, _, _ => rfl
  | k + 1, next, h => by
    have hnext : (next + 4).toNat = next.toNat + 4 := by
      have hfour : (4 : UInt32).toNat = 4 := rfl
      rw [UInt32.toNat_add, hfour]
      omega
    rw [behind, toNat_behind (by omega), hnext]
    omega

theorem mem_dataPlaces {name : String} {a : UInt32} : ∀ {names : List String} {next : UInt32},
    (name, a) ∈ dataPlaces next names ↔ ∃ k, names[k]? = some name ∧ a = behind next k
  | [], _ => by simp [dataPlaces]
  | name' :: names, next => by
    rw [dataPlaces, List.mem_cons, mem_dataPlaces]
    constructor
    · rintro (heq | ⟨k, hk, rfl⟩)
      · cases heq
        exact ⟨0, rfl, rfl⟩
      · exact ⟨k + 1, hk, rfl⟩
    · rintro ⟨_ | k, hk, rfl⟩
      · cases hk
        exact .inl rfl
      · exact .inr ⟨k, hk, rfl⟩

theorem Reflects.length_dataLabels (h : Reflects p code) :
    code.dataLabels.length = p.dataNames.length := by
  rw [← List.length_reverse, h.dataLabels, ← List.length_map (f := Prod.fst), map_fst_dataPlaces]

/-- A data label leads to the word with the number of its name. -/
theorem Reflects.address (h : Reflects p code) {name : String} {a : UInt32}
    (hlookup : code.dataLabels.lookup name = some a) :
    ∃ k, p.dataNames[k]? = some name ∧ a = behind dataBase k := by
  rw [← mem_dataPlaces, ← h.dataLabels, List.mem_reverse]
  exact lookup_mem hlookup

theorem Reflects.lookup_data (h : Reflects p code) (hnodup : p.dataNames.Nodup) {name : String}
    (hname : name ∈ p.dataNames) : ∃ a, code.dataLabels.lookup name = some a := by
  obtain ⟨k, hk⟩ := List.getElem?_of_mem hname
  refine ⟨behind dataBase k, lookup_of_mem ?_ ?_⟩
  · rw [← List.nodup_reverse, ← List.map_reverse, h.dataLabels, map_fst_dataPlaces]
    exact hnodup
  · rw [← List.mem_reverse, h.dataLabels, mem_dataPlaces]
    exact ⟨k, hk, rfl⟩

section

variable (h : Reflects p code) (hend : dataEnd code < 2 ^ 31)

include h hend

/-- The address of a word of data as an integer, if all data lies in the lower half of the
addresses. -/
theorem Reflects.toInt_address {k : ℕ} (hk : k < p.dataNames.length) :
    (behind dataBase k).toNat = 2 ^ 20 + 4 * k ∧
      (behind dataBase k).toInt32.toInt = 2 ^ 20 + 4 * k := by
  have hbase : dataBase.toNat = 2 ^ 20 := by decide
  rw [dataEnd, h.length_dataLabels, hbase] at hend
  have hnat : (behind dataBase k).toNat = 2 ^ 20 + 4 * k := by
    rw [toNat_behind (by omega), hbase]
  refine ⟨hnat, ?_⟩
  have hint := Machine.toNat_toUInt32 (behind dataBase k).toInt32
  rw [UInt32.toUInt32_toInt32, hnat] at hint
  have hlt := (behind dataBase k).toInt32.toInt_lt
  have hle := (behind dataBase k).toInt32.le_toInt
  push_cast at hint
  omega

end

/-! ### Words of data -/

/-- The data of a program with the words that it begins with. -/
def Program.dataWords (p : Program) : List (String × Int32) :=
  p.globals.map (fun g => (g.label, 0)) ++ p.constants.map fun c => (c.label, Int32.ofInt c.value)

theorem Program.map_fst_dataWords (p : Program) : p.dataWords.map Prod.fst = p.dataNames := by
  rw [dataWords, dataNames, List.map_append, List.map_map, List.map_map]
  rfl

theorem mem_constantWords {x : UInt32 × Int32} : ∀ {cs : List GlobalConstant} {next : UInt32},
    x ∈ constantWords next cs ↔ ∃ k c, cs[k]? = some c ∧ x = (behind next k, Int32.ofInt c.value)
  | [], _ => by simp [constantWords]
  | c' :: cs, next => by
    rw [constantWords, List.mem_cons, mem_constantWords]
    constructor
    · rintro (rfl | ⟨k, c, hk, rfl⟩)
      · exact ⟨0, c', rfl, rfl⟩
      · exact ⟨k + 1, c, hk, rfl⟩
    · rintro ⟨_ | k, c, hk, rfl⟩
      · cases hk
        exact .inl rfl
      · exact .inr ⟨k, c, hk, rfl⟩

theorem getD_withWords {a : UInt32} {v : Int32} :
    ∀ {words : List (UInt32 × Int32)} {memory : Machine.Memory},
    (∀ x ∈ words, x.1 = a → x.2 = v) → (memory.getD a 0 = v ∨ ∃ x ∈ words, x.1 = a) →
    (withWords memory words).getD a 0 = v
  | [], _, _, h => by
    rcases h with h | ⟨x, hx, -⟩
    · exact h
    · exact absurd hx List.not_mem_nil
  | y :: words, memory, hwords, h => by
    rw [List.forall_mem_cons] at hwords
    show (withWords (memory.insert y.1 y.2) words).getD a 0 = v
    refine getD_withWords hwords.2 ?_
    by_cases hy : y.1 = a
    · left
      rw [hy, Std.HashMap.getD_insert_self, hwords.1 hy]
    · rcases h with h | ⟨x, hx, hxa⟩
      · left
        rw [Std.HashMap.getD_insert, if_neg (by simpa using hy), h]
      · rcases List.mem_cons.mp hx with rfl | hx
        · exact absurd hxa hy
        · exact .inr ⟨x, hx, hxa⟩

/-- **The words of data** before the program runs. -/
theorem Reflects.word (h : Reflects p code) (hend : dataEnd code < 2 ^ 31) {k : ℕ} {name : String}
    {v : Int32} (hk : p.dataWords[k]? = some (name, v)) :
    code.memory.getD (behind dataBase k) 0 = v := by
  have hnames : p.dataNames.length = p.globals.length + p.constants.length := by
    rw [Program.dataNames, List.length_append, List.length_map, List.length_map]
  have hlt : k < p.dataNames.length := by
    rw [← p.map_fst_dataWords, List.length_map]
    exact (List.getElem?_eq_some_iff.mp hk).1
  have haddr := (h.toInt_address hend hlt).1
  -- a constant lies behind all variables, at the number of its own
  have hconstant : ∀ x ∈ constantWords (behind dataBase p.globals.length) p.constants,
      x.1 = behind dataBase k → x.2 = v := by
    intro x hx hxa
    obtain ⟨j, c, hj, rfl⟩ := mem_constantWords.mp hx
    have hjlt := (List.getElem?_eq_some_iff.mp hj).1
    have hsame := (h.toInt_address hend (k := p.globals.length + j) (by omega)).1
    have hxa' : behind dataBase (p.globals.length + j) = behind dataBase k := by
      rw [behind_add]; exact hxa
    rw [hxa', haddr] at hsame
    obtain rfl : k = p.globals.length + j := by omega
    rw [Program.dataWords, List.getElem?_append_right (by simp), List.length_map,
      Nat.add_sub_cancel_left, List.getElem?_map, hj] at hk
    exact (Prod.mk.inj (Option.some.inj hk)).2
  rw [h.memory]
  refine getD_withWords hconstant ?_
  by_cases hvar : k < p.globals.length
  · left
    rw [Program.dataWords, List.getElem?_append_left (by rw [List.length_map]; exact hvar),
      List.getElem?_map, List.getElem?_eq_getElem hvar] at hk
    rw [← (Prod.mk.inj (Option.some.inj hk)).2]
    exact Std.HashMap.getD_empty
  · right
    obtain ⟨j, rfl⟩ := Nat.exists_eq_add_of_le (Nat.le_of_not_lt hvar)
    refine ⟨(behind dataBase (p.globals.length + j),
      Int32.ofInt (p.constants.get ⟨j, by omega⟩).value),
      mem_constantWords.mpr ⟨j, p.constants.get ⟨j, by omega⟩, ?_, ?_⟩, rfl⟩
    · rw [List.get_eq_getElem, List.getElem?_eq_getElem]
    · rw [behind_add]

end Asm

end RvBackend
