import RvBackend.Proofs.Lower.ReadBack
import RvBackend.Proofs.Settings.Registers

/-! # Names that are registers

The generator refuses names that the machine would read as registers. Each of the two has a table of
names of its own, and both read a number behind an `x`, which may have a sign and zeros in front.

* `IsDecimal`, `IsSpelling`: the texts of an integer and of a register, said without a reader.
* `ofName?_eq_some_iff`: the machine reads exactly these texts as registers.
* `register_names_agree`: the generator knows the same names, and all other identifiers are read as
  labels. -/

namespace RvBackend

/-! ### Decimals with a sign -/

namespace Text

/-- An integer as it may be written: an optional sign, and then digits with any zeros in front. -/
inductive IsDecimal : List Char → ℤ → Prop
  | unsigned {ds : List Char} {m : ℕ} (hne : ds ≠ []) (hread : readDigits 10 0 ds = some m) :
      IsDecimal ds m
  | plus {ds : List Char} {m : ℕ} (hne : ds ≠ []) (hread : readDigits 10 0 ds = some m) :
      IsDecimal ('+' :: ds) m
  | minus {ds : List Char} {m : ℕ} (hne : ds ≠ []) (hread : readDigits 10 0 ds = some m) :
      IsDecimal ('-' :: ds) (-m)

/-- Digits have no sign in front. -/
theorem readSign_of_readDigits {ds : List Char} {m : ℕ} (h : readDigits 10 0 ds = some m) :
    readSign ds = (false, ds) := by
  unfold readSign
  split
  · cases h
  · cases h
  · rfl

theorem readDecimal_of_readSign {cs ds : List Char} {negative : Bool}
    (hsign : readSign cs = (negative, ds)) (hne : ds ≠ []) :
    readDecimal cs = (readDigits 10 0 ds).map (signed negative) := by
  obtain ⟨d, ds, rfl⟩ := List.exists_cons_of_ne_nil hne
  simp only [readDecimal, hsign]

theorem isDecimal_of_readSign {cs ds : List Char} {negative : Bool} {m : ℕ}
    (hsign : readSign cs = (negative, ds)) (hne : ds ≠ []) (hread : readDigits 10 0 ds = some m) :
    IsDecimal cs (signed negative m) := by
  unfold readSign at hsign
  split at hsign
  all_goals
    obtain ⟨rfl, rfl⟩ := Prod.mk.inj hsign
  · exact .minus hne hread
  · exact .plus hne hread
  · exact .unsigned hne hread

/-- Decimals are read as the integers that they are written for. -/
theorem readDecimal_eq_some_iff {cs : List Char} {n : ℤ} :
    readDecimal cs = some n ↔ IsDecimal cs n := by
  constructor
  · intro h
    rcases hsign : readSign cs with ⟨negative, ds⟩
    by_cases hne : ds = []
    · subst hne
      simp only [readDecimal, hsign] at h
      cases h
    · rw [readDecimal_of_readSign hsign hne, Option.map_eq_some_iff] at h
      obtain ⟨m, hread, rfl⟩ := h
      exact isDecimal_of_readSign hsign hne hread
  · intro h
    cases h with
    | unsigned hne hread =>
      rw [readDecimal_of_readSign (readSign_of_readDigits hread) hne, hread]
      rfl
    | @plus ds _ hne hread =>
      have hsign : readSign ('+' :: ds) = (false, ds) := rfl
      rw [readDecimal_of_readSign hsign hne, hread]
      rfl
    | @minus ds _ hne hread =>
      have hsign : readSign ('-' :: ds) = (true, ds) := rfl
      rw [readDecimal_of_readSign hsign hne, hread]
      rfl

end Text

namespace Lower

open Asm
open Machine (parseOperand)

/-! ### The texts that stand for a register -/

/-- A text that stands for a register: the name after its use, or `x` and its number. -/
def IsSpelling (name : String) (r : Register) : Prop :=
  (name, r) ∈ Register.named ∨ ∃ cs, name.toList = 'x' :: cs ∧ Text.IsDecimal cs r.val

theorem lookup_named {name : String} {r : Register} (h : (name, r) ∈ Register.named) :
    Register.named.lookup name = some r := by
  have hall : ∀ entry ∈ Register.named, Register.named.lookup entry.1 = some entry.2 := by decide
  exact hall _ h

theorem ofInt?_eq_some_iff {n : ℤ} {r : Register} : Register.ofInt? n = some r ↔ n = r.val := by
  unfold Register.ofInt?
  split_ifs with hlt hle
  · rw [Option.some.injEq, Fin.ext_iff]
    show n.toNat = r.val ↔ _
    omega
  · exact iff_of_false nofun (by omega)
  · exact iff_of_false nofun (by omega)

/-- The numbers of registers are words, so that their range is no bound of its own. -/
theorem readInt64_bind_eq_some_iff {cs : List Char} {r : Register} :
    (Text.readInt64 cs).bind Register.ofInt? = some r ↔ Text.IsDecimal cs r.val := by
  have hword : Text.inWord 64 r.val = true := inWord_of_range (by omega) (by omega)
  simp only [Text.readInt64, Option.bind_eq_some_iff, Option.filter_eq_some_iff, ofInt?_eq_some_iff,
    Text.readDecimal_eq_some_iff]
  constructor
  · rintro ⟨n, ⟨hread, -⟩, rfl⟩
    exact hread
  · exact fun hread => ⟨_, ⟨hread, hword⟩, rfl⟩

/-- The machine reads as a register what stands for one. -/
theorem ofName?_eq_some_iff {name : String} {r : Register} :
    Register.ofName? name = some r ↔ IsSpelling name r := by
  unfold Register.ofName? IsSpelling
  cases hlookup : Register.named.lookup name with
  | some r' =>
    have hmem := lookup_mem hlookup
    constructor
    · intro h
      exact .inl (Option.some.inj h ▸ hmem)
    · rintro (h | ⟨cs, hname, -⟩)
      · rw [← hlookup, lookup_named h]
      · have hhead := head_ne_x_of_named _ hmem
        rw [hname] at hhead
        exact absurd rfl hhead
  | none =>
    have hnot : (name, r) ∉ Register.named := fun h => by
      rw [lookup_named h] at hlookup
      cases hlookup
    rw [or_iff_right hnot]
    constructor
    · intro h
      dsimp only at h
      split at h
      · next cs hname => exact ⟨cs, hname, readInt64_bind_eq_some_iff.mp h⟩
      · cases h
    · rintro ⟨cs, hname, hread⟩
      simp only [hname]
      exact readInt64_bind_eq_some_iff.mpr hread

/-! ### The two tables -/

/-- **The generator and the machine agree on what names a register**: what the generator takes for
such a name is what the machine reads as a register, namely the spellings of registers and nothing
else. Every other identifier is read as a label, and so as neither a register nor a number nor a
place in memory. -/
theorem register_names_agree (name : String) :
    (isRegisterName name = true ↔ ∃ r, Register.ofName? name = some r) ∧
    (∀ r, Register.ofName? name = some r ↔ IsSpelling name r) ∧
    (IsIdentifier name → isRegisterName name = false →
      parseOperand name.toList = .ok (.label name)) := by
  refine ⟨?_, fun r => ofName?_eq_some_iff,
    fun hname hfree => parseOperand_label (IsName.isSymbol ⟨hname, hfree⟩)⟩
  rw [isRegisterName_eq, Option.isSome_iff_exists]

/-- A number that no register has makes a label, and a register may be called by an odd number. -/
theorem x32_read_as_label : IsIdentifier "x32" ∧ isRegisterName "x32" = false ∧
    parseOperand "x32".toList = .ok (.label "x32") ∧ isRegisterName "x+031" = true ∧
      IsSpelling "x+031" 31 :=
  ⟨by decide, by decide, (register_names_agree "x32").2.2 (by decide) (by decide), by decide,
    ((register_names_agree "x+031").2.1 31).mp (by decide)⟩

end Lower

end RvBackend
