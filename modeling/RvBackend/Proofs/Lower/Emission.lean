import RvBackend.Proofs.Lower.Spelling

/-! # Emission into a sink that gets full

A sink with room for some bytes takes as many bytes of a program's text, and the printing then ends
with an error unless that was the whole text. Whether an operand cannot be printed does not depend
on the room.

* `Asm.Program.Broken`: an operand that is to be printed names nothing.
* `printing_cut_at_room`: what is printed, and how printing ends, for every room. -/

namespace RvBackend

/-! ### The bytes in a sink -/

namespace Sink

theorem write_ofRoom_none (text : String) :
    ((ofRoom none).write text).1.taken.toList = Text.utf8 text := by
  simp [ofRoom, write]

theorem write_ofRoom_some (n : ℕ) (text : String) :
    ((ofRoom (some n)).write text).1.taken.toList = (Text.utf8 text).take n := by
  simp [ofRoom, write]

theorem fits_ofRoom_some (n : ℕ) (text : String) :
    ((ofRoom (some n)).write text).2 = decide ((Text.utf8 text).length ≤ n) := rfl

end Sink

/-! ### Programs that cannot be printed -/

namespace Asm

/-- An operand that names nothing: neither a register nor a label nor a number. -/
def Operand.Nameless : Operand → Prop
  | .reg name => name = ""
  | .mem _ base => base = ""
  | .label name => name = ""
  | .imm _ => False

theorem Operand.nameless_iff {o : Operand} : o.Nameless ↔ ¬ o.text?.isSome = true := by
  cases o <;> simp [Operand.Nameless]

/-- Some operand that is to be printed names nothing. -/
def Program.Broken (p : Program) : Prop :=
  ∃ f ∈ p.functions, ∃ op ∈ opsOf f.lines, ∃ o ∈ op.2, o.Nameless

theorem Program.broken_iff {p : Program} : p.Broken ↔ p.text? = none := by
  rw [← Option.not_isSome_iff_eq_none, Lower.isSome_programText]
  simp only [Program.Broken, Operand.nameless_iff, Lower.Prints, not_forall, exists_prop]

end Asm

/-! ### Printing and emission -/

namespace Asm

variable {p : Program} {text : String}

theorem Program.printTo_ofRoom_none (h : p.text? = some text) :
    p.printTo (.ofRoom none) = (.ok (), ((Sink.ofRoom none).write text).1) := by
  rw [p.printTo_of_text h]
  rfl

theorem Program.printTo_ofRoom_some (h : p.text? = some text) (n : ℕ) :
    p.printTo (.ofRoom (some n)) = (if n < (Text.utf8 text).length then .error .full else .ok (),
      ((Sink.ofRoom (some n)).write text).1) := by
  rw [p.printTo_of_text h, Sink.fits_ofRoom_some]
  congr 1
  by_cases hfits : (Text.utf8 text).length ≤ n
  · rw [decide_eq_true hfits, if_pos rfl, if_neg (not_lt.mpr hfits)]
  · rw [decide_eq_false hfits, if_neg Bool.false_ne_true, if_pos (not_le.mp hfits)]

theorem Program.exists_text_of_printTo {sink whole : Sink} (h : p.printTo sink = (.ok (), whole)) :
    ∃ text, p.text? = some text := by
  cases htext : p.text? with
  | some text => exact ⟨text, rfl⟩
  | none =>
    have hbroken := p.printTo_of_none htext sink
    rw [h] at hbroken
    cases hbroken

end Asm

namespace Lower

open Asm

variable {abi : Abi} {tree : RvBackend.Program}

theorem emit_of_failure {f : Failure} (h : (lowerProgram abi tree).code = .error f) (sink : Sink) :
    (emit abi tree sink).outcome = .error (.failure f) ∧ (emit abi tree sink).sink = sink := by
  simp only [emit, h, and_self]

theorem emit_of_code {p : Asm.Program} (h : (lowerProgram abi tree).code = .ok p) (sink : Sink) :
    (emit abi tree sink).outcome = (p.printTo sink).1.mapError .ofPrint ∧
      (emit abi tree sink).sink = (p.printTo sink).2 := by
  simp only [emit, h, and_self]

/-- **What is printed ends where the room does.** A program that is printed to a sink without end is
printed to a sink with room for `n` bytes up to the `n`th byte of the same text, and printing ends
with an error exactly if that is not all of it. A program with an operand that names nothing is not
printed, whatever room there is. Emission prints the code that was made, and leaves the sink as it
was if there is none. -/
theorem printing_cut_at_room (p : Asm.Program) :
    (∀ whole, p.printTo (.ofRoom none) = (.ok (), whole) → ∀ n, ∃ cut,
      p.printTo (.ofRoom (some n)) = (if n < whole.taken.size then .error .full else .ok (), cut) ∧
      cut.taken.toList = whole.taken.toList.take (min n whole.taken.size)) ∧
    ((∃ whole, p.printTo (.ofRoom none) = (.ok (), whole)) ↔ ¬ p.Broken) ∧
    (p.Broken → ∀ room, (p.printTo (.ofRoom room)).1 = .error .unprintable) ∧
    ∀ (abi : Abi) (tree : RvBackend.Program) (sink : Sink),
      (∀ f, (lowerProgram abi tree).code = .error f →
        (emit abi tree sink).outcome = .error (.failure f) ∧ (emit abi tree sink).sink = sink) ∧
      ((lowerProgram abi tree).code = .ok p →
        (emit abi tree sink).outcome = (p.printTo sink).1.mapError .ofPrint ∧
        (emit abi tree sink).sink = (p.printTo sink).2) := by
  refine ⟨fun whole hwhole n => ?_, ⟨?_, ?_⟩, ?_, ?_⟩
  · obtain ⟨text, htext⟩ := p.exists_text_of_printTo hwhole
    have htaken : whole.taken.toList = Text.utf8 text := by
      rw [p.printTo_ofRoom_none htext] at hwhole
      rw [← (Prod.mk.inj hwhole).2, Sink.write_ofRoom_none]
    have hsize : whole.taken.size = (Text.utf8 text).length := by rw [← htaken, Array.length_toList]
    refine ⟨_, by rw [p.printTo_ofRoom_some htext, hsize], ?_⟩
    rw [Sink.write_ofRoom_some, htaken, hsize, List.take_eq_take_min]
  · rintro ⟨whole, hwhole⟩ hbroken
    obtain ⟨text, htext⟩ := p.exists_text_of_printTo hwhole
    rw [p.broken_iff, htext] at hbroken
    cases hbroken
  · intro hbroken
    rw [p.broken_iff, ← ne_eq, Option.ne_none_iff_exists'] at hbroken
    obtain ⟨text, htext⟩ := hbroken
    exact ⟨_, p.printTo_ofRoom_none htext⟩
  · exact fun hbroken room => p.printTo_of_none (p.broken_iff.mp hbroken) _
  · exact fun abi tree sink => ⟨fun f h => emit_of_failure h sink, fun h => emit_of_code h sink⟩

/-- A function that loads an operand into a register. -/
def loading (o : Operand) : Asm.Program where
  file := "a \"b\".src"
  functions := [{ name := "f", lines := [.op "li" [.reg "t0", o]] }]

/-- A tree that prints a variable which is not declared. -/
def undeclaredVariable : RvBackend.Program where
  name := "undeclared"
  body := some (.mk {} none [] [.print {} (.variable ⟨{}, "x"⟩)])

theorem loading_cut_at_room :
    (∃ whole cut, (loading (.imm 3)).printTo (.ofRoom none) = (.ok (), whole) ∧
      (loading (.imm 3)).printTo (.ofRoom (some 17)) = (.error .full, cut) ∧
      cut.taken.toList = whole.taken.toList.take 17) ∧
    ((loading (.label "")).Broken ∧
      ((loading (.label "")).printTo (.ofRoom (some 17))).1 = .error .unprintable) ∧
    (lowerProgram {} undeclaredVariable).code = .error ⟨.entry "main", .unresolved {} "x"⟩ ∧
    ∀ sink, (emit {} undeclaredVariable sink).sink = sink := by
  obtain ⟨hcut, hwhole, -, hemit⟩ := printing_cut_at_room (loading (.imm 3))
  have hbroken : (loading (.label "")).Broken :=
    ⟨_, List.mem_singleton.mpr rfl, _, List.mem_singleton.mpr rfl, .label "", by simp, rfl⟩
  have hnamed : ¬ (loading (.imm 3)).Broken := by
    simp [Asm.Program.Broken, loading, opsOf, Line.op, Operand.Nameless]
  have hcode : (lowerProgram {} undeclaredVariable).code =
      .error ⟨.entry "main", .unresolved {} "x"⟩ := by
    decide +kernel
  obtain ⟨whole, hprint⟩ := hwhole.mpr hnamed
  obtain ⟨cut, hend, htaken⟩ := hcut whole hprint 17
  have hsize : 17 < whole.taken.size := by
    have hlong : 17 < ((loading (.imm 3)).printTo (.ofRoom none)).2.taken.size := by decide +kernel
    rwa [hprint] at hlong
  refine ⟨⟨whole, cut, hprint, ?_, ?_⟩, ⟨hbroken, ?_⟩, hcode,
    fun sink => ((hemit {} _ sink).1 _ hcode).2⟩
  · rw [hend, if_pos hsize]
  · rw [htaken, min_eq_left hsize.le]
  · exact (printing_cut_at_room (loading (.label ""))).2.2.1 hbroken _

end Lower

end RvBackend
