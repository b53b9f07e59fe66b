import RvBackend.Proofs.Program.Generated
import RvBackend.Proofs.Simulation.Run

/-! # What programs mean is what their code does

The text of the code of a program, read and run by the machine, does what the evaluation of the
program does: it prints the same, reads the same, leaves the same words in the global variables and
ends with the same result, or it stops for the same reason, or neither comes to an end.

* `Mirrored`: what runs do if an evaluation comes to some result.
* `Loaded.preserved`: code that the machine can have does what the program means.
* `meaning_preserved_iff`: all generated code does, exactly if the largest frame has a size of 64
  bits. -/

namespace RvBackend.Simulation

open Lower (manyVariables nested wideSlots)
open Machine (Listing)
open Meaning (Stop World Can)

/-- What runs do if the evaluation comes to some result with fuel `n` and leaves the world `w`.
Where the program does not determine a value that is needed, there is nothing to compare. -/
def Mirrored (abi : Abi) (p : Program) (code : Listing) (input : Machine.Input) (output : Sink)
    (n : ℕ) (w : World) :
    Except Stop (Option Int32) → Prop
  | .ok value => Settles abi code input output (Finishes p code value w)
  | .error .undefined => True
  | .error .fuel => Lasts abi code input output n (SameText w)
  | .error (.unknownFunction name) =>
    Settles abi code input output (Breaks abi code (.unknownSymbol name) w)
  | .error (.input fault) => Settles abi code input output (Breaks abi code (.input fault) w)
  | .error .outputFull => Settles abi code input output (Breaks abi code .outputFull w)

/-- A listing does what a program means, on every input and with every room for output. -/
def Preserved (abi : Abi) (p : Program) (code : Listing) : Prop :=
  ∀ input output fuel, Mirrored abi p code input output fuel
    (Meaning.evaluate abi p fuel input output).2 (Meaning.evaluate abi p fuel input output).1

section

variable {abi : Abi} {p : Program} {code : Listing} {input : Machine.Input} {output : Sink} {n : ℕ}
  {w : World}

/-- Where the stack never stays above the data, nothing is asked of runs. -/
theorem mirrored_of_low (h : Settles abi code input output fun _ => False) (w : World) :
    ∀ r, Mirrored abi p code input output n w r
  | .ok _ => h.imp fun _ hfalse => hfalse.elim
  | .error .undefined => trivial
  | .error .fuel => h.lasts n
  | .error (.unknownFunction _) => h.imp fun _ hfalse => hfalse.elim
  | .error (.input _) => h.imp fun _ hfalse => hfalse.elim
  | .error .outputFull => h.imp fun _ hfalse => hfalse.elim

theorem mirrored_of_trapOf {t : Machine.Trap} : ∀ {stop : Stop}, trapOf stop = some t →
    Settles abi code input output (Breaks abi code t w) →
      Mirrored abi p code input output n w (.error stop)
  | .unknownFunction _, rfl, h => h
  | .input _, rfl, h => h
  | .outputFull, rfl, h => h

/-- What runs show mirrors some evaluation, unless the stack never stays above the data. -/
theorem Comes.mirrored (h : Comes abi code input output p n) :
    (Settles abi code input output fun _ => False) ∨
      ∃ r w, Can (Meaning.program abi p n) (World.initial p input output) r w ∧
        Mirrored abi p code input output n w r := by
  cases h with
  | low h => exact .inl h
  | finishes hcan h => exact .inr ⟨_, _, hcan, h⟩
  | breaks hcan ht h => exact .inr ⟨_, _, hcan, mirrored_of_trapOf ht h⟩
  | goesOn hcan h => exact .inr ⟨_, _, hcan, h⟩

theorem SameText.guessing {r : Machine.Run} (h : SameText w r) : SameText (w.guessing []) r :=
  ⟨h.input, h.output⟩

theorem Breaks.guessing {t : Machine.Trap} (r : Machine.Run) (h : Breaks abi code t w r) :
    Breaks abi code t (w.guessing []) r := ⟨h.outcome, h.text.guessing⟩

/-- The guesses that a world has left do not show. -/
theorem Mirrored.guessing :
    ∀ {r : Except Stop (Option Int32)}, Mirrored abi p code input output n w r →
    Mirrored abi p code input output n (w.guessing []) r
  | .ok _, h => Settles.imp h fun _ hend => ⟨hend.outcome, hend.globals, hend.text.guessing⟩
  | .error .undefined, _ => trivial
  | .error .fuel, h => Lasts.imp h fun _ => SameText.guessing
  | .error (.unknownFunction _), h => Settles.imp h Breaks.guessing
  | .error (.input _), h => Settles.imp h Breaks.guessing
  | .error .outputFull, h => Settles.imp h Breaks.guessing

/-- **Preservation**: the code of a program does what the program means. Runs show an evaluation
with suitable guesses; one that is determined without guesses is the same. -/
theorem Loaded.preserved (h : Loaded abi p code) : Preserved abi p code := by
  intro input output n
  rcases heval : Meaning.evaluate abi p n input output with ⟨r, w⟩
  show Mirrored abi p code input output n w r
  rcases (h.comes input output n).mirrored with hlow | ⟨r', w', hcan, hmirrored⟩
  · exact mirrored_of_low hlow w r
  by_cases hr : r = .error .undefined
  · subst hr
    trivial
  obtain ⟨rfl, rfl⟩ := (Meaning.steady_program abi p n).eq_of_can hcan heval hr
  exact hmirrored.guessing

/-- What the bytes of a program mean is what its code does. -/
theorem ProperSource.preserved {s : Settings} {bytes : List UInt8} {lowered : Asm.Program}
    (h : ProperSource s.abi bytes p) (hvalid : s.problems = []) (hroom : Roomy s.abi p)
    (hcode : (Lower.lowerProgram s.abi p).code = .ok lowered)
    (hsmall : (Asm.opsOf lowered.codeLines).length < 2 ^ 28) :
    ReadAs s.abi p (Preserved s.abi p) :=
  h.readAs hvalid hroom hcode hsmall fun _ hloaded => hloaded.preserved

end

/-- **Semantic preservation**: under valid settings, the text of all code that is generated for
programs with at most `n` entries in each function is read and does what the program means, exactly
if a frame with `n` entries has a size of 64 bits. -/
theorem meaning_preserved_iff {s : Settings} (hvalid : s.problems = []) (habi : ProperAbi s.abi)
    {n : ℕ} (hslots : s.abi.slotSize.toInt * n < 2 ^ 63) :
    (∀ p code, Generated s.abi n p code → ReadAs s.abi p (Preserved s.abi p)) ↔
      8 + s.abi.slotSize.toInt * n ≤ 2 ^ 63 - 16 :=
  readAs_iff hvalid habi hslots fun _ _ hloaded => hloaded.preserved

theorem nested_meaning_preserved :
    ∃ code, Generated {} 2 nested code ∧ ReadAs {} nested (Preserved {} nested) := by
  obtain ⟨code, hcode⟩ := generated_nested
  have hiff := @meaning_preserved_iff {} (by decide +kernel) (properAbi_slotSize 4) 2 (by decide)
  exact ⟨code, hcode, hiff.mpr (by decide) nested code hcode⟩

/-- With slots of almost 2^63 bytes, a program with one variable loses its meaning: its text is not
read. -/
theorem wide_slots_meaning_lost : wideSlots.problems = [] ∧ ProperAbi wideSlots.abi ∧
    wideSlots.abi.slotSize.toInt * (1 : ℕ) < 2 ^ 63 ∧
    ∃ code, Generated wideSlots.abi 1 (manyVariables 1) code ∧
      ¬ ReadAs wideSlots.abi (manyVariables 1) (Preserved wideSlots.abi (manyVariables 1)) :=
  ⟨by decide +kernel, properAbi_slotSize _, by decide, wideSlots_not_readAs _⟩

end RvBackend.Simulation
