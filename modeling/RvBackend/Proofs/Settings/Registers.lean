import RvBackend.Proofs.Asm.Operands
import RvBackend.Proofs.Settings.Valid

/-! # The registers of arguments

The registers of arguments must not be ones that generated code uses for itself, nor may two of them
be one register. Settings are checked for both, but by the names alone. A register has more than one
name, though: each has its number, which may be written with a sign and with leading zeros, and the
frame pointer is called `fp` as well as `s0`.

* `Alias name r`: the name is such a second name of the register.
* `RegistersApart`: what the check is for.
* `registers_apart_iff`: what the check misses are second names, and nothing else. -/

namespace RvBackend

open Asm (Register)

/-- A name that a register has besides the one after its use. -/
inductive Alias : String → Register → Prop
  | framePointer : Alias "fp" Register.s0
  | number {name : String} {digits : List Char} {n : ℤ} {r : Register}
      (hname : name.toList = 'x' :: digits)
    (hread : Text.readInt64 digits = some n) (hr : Register.ofInt? n = some r) : Alias name r

theorem head_ne_x_of_named : ∀ entry ∈ Register.named, entry.1.toList.head? ≠ some 'x' := by decide

/-- An alias is read as its register. -/
theorem Alias.ofName? {name : String} {r : Register} (h : Alias name r) :
    Register.ofName? name = some r := by
  cases h with
  | framePointer => decide
  | number hname hread hr =>
    unfold Register.ofName?
    split
    · next r' hlookup =>
      have hhead := head_ne_x_of_named _ (lookup_mem hlookup)
      rw [hname] at hhead
      exact absurd rfl hhead
    · simp only [hname, hread, hr, Option.bind_some]

/-- The name after its use, with `s0` for the frame pointer. -/
def IsOwnName (name : String) (r : Register) : Prop := (name, r) ∈ Register.named ∧ name ≠ "fp"

/-- Whatever is read as a register is an alias or its own name. -/
theorem alias_or_isOwnName {name : String} {r : Register} (h : Register.ofName? name = some r) :
    Alias name r ∨ IsOwnName name r := by
  unfold Register.ofName? at h
  split at h
  · next r' hlookup =>
    obtain rfl := Option.some.inj h
    have hmem := lookup_mem hlookup
    by_cases hfp : name = "fp"
    · subst hfp
      obtain rfl : r' = Register.s0 := Option.some.inj (hlookup.symm.trans (by decide))
      exact .inl .framePointer
    · exact .inr ⟨hmem, hfp⟩
  · split at h
    · next digits hname =>
      obtain ⟨n, hread, hr⟩ := Option.bind_eq_some_iff.mp h
      exact .inl (.number hname hread hr)
    · cases h

/-- A register has one name of its own. -/
theorem IsOwnName.unique {name name' : String} {r : Register} (h : IsOwnName name r)
    (h' : IsOwnName name' r) :
    name = name' := by
  have hall : ∀ entry ∈ Register.named, ∀ entry' ∈ Register.named, entry.2 = entry'.2 →
    entry.1 ≠ "fp" →
      entry'.1 ≠ "fp" → entry.1 = entry'.1 := by decide +kernel
  exact hall _ h.1 _ h'.1 rfl h.2 h'.2

theorem isOwnName_of_reserved {name : String} {r : Register} (hname : name ∈ reservedRegisters)
    (h : Register.ofName? name = some r) : IsOwnName name r := by
  have hall : ∀ name ∈ reservedRegisters, ∃ r, IsOwnName name r ∧
      Register.ofName? name = some r := by
    unfold IsOwnName
    decide +kernel
  obtain ⟨r', hown, hr'⟩ := hall name hname
  obtain rfl := Option.some.inj (h.symm.trans hr')
  exact hown

/-- The registers of arguments are different ones, and none of them is a register that generated
code uses for itself: as far as their names are read as registers at all. -/
structure RegistersApart (abi : Abi) : Prop where
  different : abi.registers.Pairwise fun name name' =>
    ∀ r, Register.ofName? name = some r → Register.ofName? name' ≠ some r
  unreserved : ∀ name ∈ abi.registers, ∀ reserved ∈ reservedRegisters,
    ∀ r, Register.ofName? name = some r → Register.ofName? reserved ≠ some r

/-- **What the check of registers misses** are second names, and nothing else: the registers of
arguments are apart exactly if none is listed by a second name that is reserved under its first, or
listed under another name as well. -/
theorem registers_apart_iff {s : Settings} (hvalid : s.problems = []) :
    RegistersApart s.abi ↔ ∀ name ∈ s.abi.registers, ∀ r, Alias name r →
      (∀ reserved ∈ reservedRegisters, Register.ofName? reserved ≠ some r) ∧
      ∀ name' ∈ s.abi.registers, Register.ofName? name' = some r → name' = name := by
  have habi := abi_valid hvalid
  constructor
  · intro hapart name hname r halias
    refine ⟨fun reserved hreserved => hapart.unreserved name hname reserved hreserved r
      halias.ofName?, ?_⟩
    intro name' hname' hr
    by_contra hne
    have hsymm : Std.Symm fun name name' => ∀ r, Register.ofName? name = some r →
        Register.ofName? name' ≠ some r :=
      ⟨fun _ _ h r hr hr' => h r hr' hr⟩
    exact hapart.different.forall hname' hname hne r hr halias.ofName?
  · intro haliases
    have heq : ∀ name ∈ s.abi.registers, ∀ name' ∈ s.abi.registers, ∀ r,
        Register.ofName? name = some r → Register.ofName? name' = some r → name = name' := by
      intro name hname name' hname' r hr hr'
      rcases alias_or_isOwnName hr with halias | hown
      · exact ((haliases name hname r halias).2 name' hname' hr').symm
      · rcases alias_or_isOwnName hr' with halias' | hown'
        · exact (haliases name' hname' r halias').2 name hname hr
        · exact hown.unique hown'
    refine ⟨habi.nodup.pairwise_of_forall_ne fun name hname name' hname' hne r hr hr' => ?_, ?_⟩
    · exact hne (heq name hname name' hname' r hr hr')
    · intro name hname reserved hreserved r hr hreads
      rcases alias_or_isOwnName hr with halias | hown
      · exact (haliases name hname r halias).1 reserved hreserved hreads
      · obtain rfl := hown.unique (isOwnName_of_reserved hreserved hreads)
        exact habi.registers name hname hreserved

/-- Arguments in a register that goes by its number, and in two others. -/
def numberedArgument : Settings :=
  { abi := { argRegisters := ["x+010", "a1"], overflowRegisters := ["t3"] } }

theorem numbered_argument_apart :
    numberedArgument.problems = [] ∧ RegistersApart numberedArgument.abi := by
  have hvalid : numberedArgument.problems = [] := by decide +kernel
  have hall : ∀ name ∈ numberedArgument.abi.registers, ∀ r, Register.ofName? name = some r →
      (∀ reserved ∈ reservedRegisters, Register.ofName? reserved ≠ some r) ∧
      ∀ name' ∈ numberedArgument.abi.registers, Register.ofName? name' = some r → name' = name := by
    decide +kernel
  exact ⟨hvalid, (registers_apart_iff hvalid).mpr fun name hname r halias => hall name hname r
    halias.ofName?⟩

/-- An argument in the frame pointer. -/
def framePointerArgument : Settings := { abi := { argRegisters := ["fp"] } }

/-- Two arguments in one register. -/
def sharedArgument : Settings := { abi := { argRegisters := ["a0", "x10"] } }

/-- Neither is told as a problem. -/
theorem second_names_not_told :
    framePointerArgument.problems = [] ∧ ¬ RegistersApart framePointerArgument.abi ∧
    sharedArgument.problems = [] ∧ ¬ RegistersApart sharedArgument.abi := by
  refine ⟨by decide +kernel, fun h => ?_, by decide +kernel, fun h => ?_⟩
  · exact h.unreserved "fp" (by decide) "s0" (by decide) Register.s0 (by decide) (by decide)
  · have hx10 : "x10" ∈ "x10" :: sharedArgument.abi.overflowRegisters := List.mem_cons_self
    exact List.rel_of_pairwise_cons h.different hx10 Register.a0 (by decide) (by decide +kernel)

end RvBackend
