import RvBackend.Proofs.Lower.Wraparound
import RvBackend.Proofs.Simulation.Program

/-! # Generated code that can be run

The text of generated code can be read and run, whatever the program, exactly as long as the frames
of its functions have sizes that are numbers of 64 bits.

* `Generated`: programs with their code.
* `ReadAs`: the text of a program is read as a listing of some sort.
* `readAs_iff`: the condition on the sizes of frames.
* `ProperSource.readAs`: the same for programs that have been decoded, which have no slots yet. -/

namespace RvBackend.Simulation

open Asm (Register opsOf)
open Lower (IsName Wraps manyVariables nested routines variableAt wideSlots)
open Machine (Listing)

/-- What is assumed of conventions: their names are no names of registers, and the registers of
arguments are of no other use. -/
structure ProperAbi (abi : Abi) : Prop where
  printHelper : IsName abi.printHelper
  readHelper : IsName abi.readHelper
  entry : IsName abi.entry
  registers : ∃ ρs, ArgumentRegisters abi ρs

/-- A proper program with at most `n` entries in each function, and its code, which is not too long
for the machine. -/
structure Generated (abi : Abi) (n : ℕ) (p : Program) (code : Asm.Program) : Prop where
  proper : Proper abi p
  entries : ∀ f ∈ routines abi p, f.entries.length ≤ n
  lowered : (Lower.lowerProgram abi p).code = .ok code
  small : (opsOf code.codeLines).length < 2 ^ 28

/-- The text of a program is read as a listing of some sort. -/
def ReadAs (abi : Abi) (p : Program) (P : Listing → Prop) : Prop :=
  ∃ text listing, Lower.codeText (Lower.lowerProgram abi p).code = .ok text ∧
    Listing.parse text = .ok listing ∧ P listing

theorem Generated.roomy {abi : Abi} {n : ℕ} {p : Program} {code : Asm.Program}
    (h : Generated abi n p code) (hvalid : abi.Valid)
    (hroom : 8 + abi.slotSize.toInt * n ≤ 2 ^ 63 - 16) : Roomy abi p := by
  intro f hf
  have hslot := hvalid.slot_ge
  have hle : abi.slotSize.toInt * f.entries.length ≤ abi.slotSize.toInt * n :=
    Int.mul_le_mul_of_nonneg_left (Int.ofNat_le.mpr (h.entries f hf)) (by omega)
  omega

/-! ### Programs with many variables -/

theorem entries_manyVariables (abi : Abi) (n : ℕ) : ∀ f ∈ routines abi (manyVariables n),
    f.entries = List.replicate n (variableAt 0) ∧ f.callees = [] := by
  intro f hf
  obtain rfl := List.mem_singleton.mp hf
  exact ⟨List.append_nil _, rfl⟩

theorem ProperAbi.proper_manyVariables {abi : Abi} (h : ProperAbi abi) (n : ℕ) :
    Proper abi (manyVariables n) := by
  have hentries := entries_manyVariables abi n
  have hfile : Asm.Uncommented "variables.src".toList := by decide
  refine ⟨⟨?_, ?_, ?_, ?_, h.printHelper, h.readHelper, h.entry, .nil, hfile⟩, h.registers, ?_, ?_,
    ?_⟩
  · exact fun f hf => absurd hf List.not_mem_nil
  · exact fun e he => absurd he List.not_mem_nil
  · intro f hf e he
    rw [(hentries f hf).1] at he
    rw [List.eq_of_mem_replicate he]
    decide
  · intro f hf c hc
    rw [(hentries f hf).2] at hc
    cases hc
  · exact fun e he => absurd he List.not_mem_nil
  · intro f hf e he
    rw [(hentries f hf).1] at he
    rw [List.eq_of_mem_replicate he]
    rfl
  · exact fun e he => absurd he List.not_mem_nil

/-- With slots that are too wide, the text of a program with `n` variables is not read. -/
theorem ProperAbi.not_readAs {abi : Abi} (h : ProperAbi abi) (hvalid : abi.Valid) {n : ℕ}
    (hwraps : Wraps abi n) (P : Listing → Prop) :
    ∃ code, Generated abi n (manyVariables n) code ∧ ¬ ReadAs abi (manyVariables n) P := by
  obtain _ | n := n
  · have hroom := hwraps.room
    simp at hroom
  obtain ⟨code, hcode, hsmall, hread⟩ := Lower.manyVariables_not_read hwraps hvalid
  refine ⟨code, ⟨h.proper_manyVariables _, fun f hf => ?_, hcode, hsmall⟩, ?_⟩
  · rw [(entries_manyVariables abi _ f hf).1, List.length_replicate]
  · rintro ⟨text, listing, htext, hparse, -⟩
    exact hread text listing htext hparse

/-! ### The condition -/

/-- **When generated code can be run**: what holds of all code that the machine can have holds of
all generated code, exactly if the largest frame has a size of 64 bits. -/
theorem readAs_iff {s : Settings} (hvalid : s.problems = []) (habi : ProperAbi s.abi) {n : ℕ}
    (hslots : s.abi.slotSize.toInt * n < 2 ^ 63) {P : Program → Listing → Prop}
    (hP : ∀ p listing, Loaded s.abi p listing → P p listing) :
    (∀ p code, Generated s.abi n p code → ReadAs s.abi p (P p)) ↔
      8 + s.abi.slotSize.toInt * n ≤ 2 ^ 63 - 16 := by
  have hvalid' := abi_valid hvalid
  constructor
  · intro hall
    by_contra hroom
    obtain ⟨code, hcode, hnot⟩ := habi.not_readAs hvalid' ⟨hslots, hroom⟩ (P (manyVariables n))
    exact hnot (hall _ code hcode)
  · intro hroom p code hcode
    obtain ⟨text, listing, htext, hparse, hloaded⟩ :=
      loaded_of_code hvalid hcode.proper (hcode.roomy hvalid' hroom) hcode.lowered hcode.small
    exact ⟨text, listing, htext, hparse, hP p listing hloaded⟩

/-! ### Decoded programs -/

/-- A program that bytes are decoded to, with names that can be told apart, and the entries of its
own scope global and all others not. -/
structure ProperSource (abi : Abi) (bytes : List UInt8) (p : Program) : Prop where
  decoded : Program.decode bytes = .ok p
  named : Lower.WellNamed abi p
  registers : ∃ ρs, ArgumentRegisters abi ρs
  globals : ∀ e ∈ Table.entriesOf p.scope, e.isGlobal = true
  locals : ∀ f ∈ routines abi p, ∀ e ∈ f.entries, e.isGlobal = false

/-- Decoding gives no slots. -/
theorem ProperSource.proper {abi : Abi} {bytes : List UInt8} {p : Program}
    (h : ProperSource abi bytes p) : Proper abi p :=
  ⟨h.named, h.registers, h.globals, h.locals, unplaced_of_decode h.decoded⟩

/-- **From the bytes of a program to its listing**: the text that is generated for it is read. -/
theorem ProperSource.readAs {s : Settings} {bytes : List UInt8} {p : Program} {code : Asm.Program}
    {P : Listing → Prop} (h : ProperSource s.abi bytes p) (hvalid : s.problems = [])
    (hroom : Roomy s.abi p) (hcode : (Lower.lowerProgram s.abi p).code = .ok code)
    (hsmall : (opsOf code.codeLines).length < 2 ^ 28)
    (hP : ∀ listing, Loaded s.abi p listing → P listing) : ReadAs s.abi p P := by
  obtain ⟨text, listing, htext, hparse, hloaded⟩ :=
    loaded_of_code hvalid h.proper hroom hcode hsmall
  exact ⟨text, listing, htext, hparse, hP listing hloaded⟩

/-! ### Instances -/

/-- The width of slots does not matter for the names and registers of the conventions. -/
theorem properAbi_slotSize (slotSize : Int64) : ProperAbi { slotSize } := by
  have hnames : IsName "printInt" ∧ IsName "readInt" ∧ IsName "main" := by decide
  have hregisters : List.Forall₂ (fun r ρ => Register.ofName? r = some ρ)
      (["a0", "a1", "a2", "a3", "a4", "a5", "a6", "a7"] ++ ["t3", "t4", "t5", "t6"])
      [10, 11, 12, 13, 14, 15, 16, 17, 28, 29, 30, 31] := by
    simp only [List.cons_append, List.nil_append, List.forall₂_cons, List.Forall₂.nil, and_true]
    decide
  exact ⟨hnames.1, hnames.2.1, hnames.2.2, _, hregisters, by decide, by decide⟩

/-- With slots of almost 2^63 bytes, the text of a program with one variable is not read. -/
theorem wideSlots_not_readAs (P : Listing → Prop) :
    ∃ code, Generated wideSlots.abi 1 (manyVariables 1) code ∧
    ¬ ReadAs wideSlots.abi (manyVariables 1) P := by
  have hproblems : wideSlots.problems = [] := by decide +kernel
  have habi : ProperAbi wideSlots.abi := properAbi_slotSize _
  have hwraps : Wraps wideSlots.abi 1 := ⟨by decide, by decide⟩
  exact habi.not_readAs (abi_valid hproblems) hwraps P

theorem proper_nested : Proper {} nested := by
  refine ⟨by constructor <;> decide +kernel, (properAbi_slotSize 4).registers, ?_, ?_, ?_⟩ <;>
    decide +kernel

theorem generated_nested : ∃ code, Generated {} 2 nested code := by
  have hsmall : (Lower.lowerProgram {} nested).code.toOption.any
      fun code => (opsOf code.codeLines).length < 2 ^ 28 := by decide +kernel
  obtain ⟨code, hcode, htest⟩ := exists_ok_of_any hsmall
  exact ⟨code, proper_nested, by decide +kernel, hcode, of_decide_eq_true htest⟩

end RvBackend.Simulation
