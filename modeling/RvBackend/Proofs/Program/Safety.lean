import RvBackend.Proofs.Program.Generated
import RvBackend.Proofs.Simulation.Run

/-! # Generated code is safe

Whatever the program means, and also where it means nothing, a run of its code within which the
stack stays above the data never reaches an instruction that the machine cannot carry out, a word of
memory that is not aligned or a place outside the code. It ends with a balanced stack, at the limit
of steps, or in a call: of a name that no function has, or of a helper that cannot read or print.

* `SafeEnd`: the ways in which such a run ends.
* `Loaded.safe`: code that the machine can have is safe.
* `generated_code_safe_iff`: all generated code is, exactly if the largest frame has a size of 64
  bits. -/

namespace RvBackend.Simulation

open Lower (manyVariables nested routines wideSlots)
open Machine (Instruction InputFault Listing RunError Exit State)

/-- The ways in which a run of generated code ends. -/
inductive SafeEnd (abi : Abi) (p : Program) (code : Listing) : Except RunError Exit → Prop
  | halted {exit : Exit} (h : exit.balanced = true) : SafeEnd abi p code (.ok exit)
  | stepLimit (limit : ℕ) : SafeEnd abi p code (.error (.stepLimit limit))
  /-- The call of a name that no function has. -/
  | unknown {i : Instruction} {name : String} (hi : i ∈ code.instructions) (hcall : IsCall i name)
      (hname : ∀ f ∈ routines abi p, f.name ≠ name) :
      SafeEnd abi p code (.error (.trap i.line "jal" (.unknownSymbol name)))
  | input {i : Instruction} {fault : InputFault} (hi : i ∈ code.instructions)
      (hcall : IsCall i abi.readHelper) :
      SafeEnd abi p code (.error (.trap i.line "jal" (.input fault)))
  | outputFull {i : Instruction} (hi : i ∈ code.instructions) (hcall : IsCall i abi.printHelper) :
      SafeEnd abi p code (.error (.trap i.line "jal" .outputFull))

/-- Each run within which the stack stays above the data ends safely, on every input and with every
limit. -/
def Safe (abi : Abi) (p : Program) (code : Listing) : Prop :=
  ∀ input output limit, StackStays (optionsOf abi limit) code (State.initial code input output) →
    SafeEnd abi p code (runOf abi code input output limit).outcome

section

variable {abi : Abi} {p : Program} {code : Listing}

/-- Each function has a label, so a name without a label is the name of no function. -/
theorem Loaded.ne_name (h : Loaded abi p code) {name : String}
    (hnone : code.codeLabels.lookup name = none) :
    ∀ f ∈ routines abi p, f.name ≠ name := by
  rintro f hf rfl
  obtain ⟨start, hstands⟩ := h.housed.stands f hf
  cases hnone.symm.trans hstands.label

theorem Loaded.safeEnd_of_failsIn (h : Loaded abi p code) {i : Instruction} {label : String}
    {t : Machine.Trap} (hi : i ∈ code.instructions) (hcall : IsCall i label)
    (hfails : FailsIn ⟨abi.entry, abi.printHelper, abi.readHelper⟩ code label t) :
    SafeEnd abi p code (.error (.trap i.line "jal" t)) := by
  unfold FailsIn at hfails
  split at hfails
  · subst hfails
    exact .outputFull hi hcall
  · subst hfails
    exact .input hi hcall
  · obtain ⟨rfl, hnone⟩ := hfails
    exact .unknown hi hcall (h.ne_name hnone)
  · exact hfails.elim

/-- Runs that settle end safely if all their ends are safe. -/
theorem Settles.safeEnd {input : Machine.Input} {output : Sink} {Q : Machine.Run → Prop} {limit : ℤ}
    {l : ℕ} (h : Settles abi code input output Q) (hQ : ∀ r, Q r → SafeEnd abi p code r.outcome)
    (hl : Within abi code input output limit l) :
    SafeEnd abi p code (runOf abi code input output limit).outcome := by
  obtain ⟨k, hk⟩ := h
  rcases Nat.lt_or_ge l k with hlt | hle
  · rw [(hk limit l hl).1 hlt]
    exact .stepLimit l
  · exact hQ _ ((hk limit l hl).2 hle).2

/-- **Safety**: the code of a program is safe. An evaluation with as much fuel as there are steps
shows the end of the run, or that the run reaches its limit. -/
theorem Loaded.safe (h : Loaded abi p code) : Safe abi p code := by
  intro input output limit hstays
  have hl : Within abi code input output limit (optionsOf abi limit).maxSteps := ⟨hstays, rfl⟩
  cases h.comes input output (optionsOf abi limit).maxSteps with
  | low hsettles => exact hsettles.safeEnd (fun _ hfalse => hfalse.elim) hl
  | finishes _ hsettles =>
    refine hsettles.safeEnd (fun r hr => ?_) hl
    obtain ⟨exit, hexit, hbalanced, -⟩ := hr.outcome
    rw [hexit]
    exact .halted hbalanced
  | breaks _ _ hsettles =>
    refine hsettles.safeEnd (fun r hr => ?_) hl
    obtain ⟨i, hi, label, hcall, hfails, houtcome⟩ := hr.outcome
    rw [houtcome]
    exact h.safeEnd_of_failsIn hi hcall hfails
  | goesOn _ hlasts =>
    obtain ⟨k, hle, hk⟩ := hlasts
    rw [(hk limit _ hl).1 hle]
    exact .stepLimit _

/-- The code that the bytes of a program lead to is safe. -/
theorem ProperSource.safe {s : Settings} {bytes : List UInt8} {lowered : Asm.Program}
    (h : ProperSource s.abi bytes p) (hvalid : s.problems = []) (hroom : Roomy s.abi p)
    (hcode : (Lower.lowerProgram s.abi p).code = .ok lowered)
    (hsmall : (Asm.opsOf lowered.codeLines).length < 2 ^ 28) :
    ReadAs s.abi p (Safe s.abi p) :=
  h.readAs hvalid hroom hcode hsmall fun _ hloaded => hloaded.safe

end

/-- **Run-time safety**: under valid settings, the text of all code that is generated for programs
with at most `n` entries in each function is read and safe, exactly if a frame with `n` entries has
a size of 64 bits. -/
theorem generated_code_safe_iff {s : Settings} (hvalid : s.problems = []) (habi : ProperAbi s.abi)
    {n : ℕ} (hslots : s.abi.slotSize.toInt * n < 2 ^ 63) :
    (∀ p code, Generated s.abi n p code → ReadAs s.abi p (Safe s.abi p)) ↔
      8 + s.abi.slotSize.toInt * n ≤ 2 ^ 63 - 16 :=
  readAs_iff hvalid habi hslots fun _ _ hloaded => hloaded.safe

theorem nested_code_safe :
    ∃ code, Generated {} 2 nested code ∧ ReadAs {} nested (Safe {} nested) := by
  obtain ⟨code, hcode⟩ := generated_nested
  have hiff := @generated_code_safe_iff {} (by decide +kernel) (properAbi_slotSize 4) 2 (by decide)
  exact ⟨code, hcode, hiff.mpr (by decide) nested code hcode⟩

/-- With slots of almost 2^63 bytes, the code of a program with one variable cannot be run: its text
is not read. -/
theorem wide_slots_not_run : wideSlots.problems = [] ∧ ProperAbi wideSlots.abi ∧
    wideSlots.abi.slotSize.toInt * (1 : ℕ) < 2 ^ 63 ∧
    ∃ code, Generated wideSlots.abi 1 (manyVariables 1) code ∧
      ¬ ReadAs wideSlots.abi (manyVariables 1) (Safe wideSlots.abi (manyVariables 1)) :=
  ⟨by decide +kernel, properAbi_slotSize _, by decide, wideSlots_not_readAs _⟩

end RvBackend.Simulation
