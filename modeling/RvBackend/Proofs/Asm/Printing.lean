import RvBackend.Asm.Printing
import RvBackend.Proofs.Text.Utf8

/-! # What is printed of a program

A program that is printed in pieces is printed like its text in one piece, whatever room there is: a
piece that does not fit is cut where the whole text would be cut, and nothing is printed behind it.

* `Printer.print_append`: two pieces are printed like one.
* `Renders`: steps that print a text in pieces, and have no result where there is no text.
* `Program.renders`: the steps for a program print its text. One lemma for each kind of its parts
  leads there.
* `Program.printTo_of_text`, `Program.printTo_of_none`: so printing a program is printing its text,
  if it has one. -/

namespace RvBackend

/-! ### Pieces -/

namespace Sink

theorem appendList_append (bytes : Array UInt8) (bs bs' : List UInt8) :
    bytes ++ bs ++ bs' = bytes ++ (bs ++ bs') := by
  apply Array.toList_inj.mp
  simp

/-- Behind a text that fits, a sink goes on with the next one. -/
theorem write_of_fits {s : Sink} {a : String} (h : (s.write a).2 = true) (b : String) :
    (s.write a).1.write b = s.write (a ++ b) := by
  unfold write at h ⊢
  cases hroom : s.room with
  | none => simp [Text.utf8_append, appendList_append]
  | some n =>
    have hfits : (Text.utf8 a).length ≤ n := by simpa [hroom] using h
    have hle : (Text.utf8 b).length ≤ n - (Text.utf8 a).length ↔
        (Text.utf8 a).length + (Text.utf8 b).length ≤ n := by omega
    simp [Text.utf8_append, List.take_append, hle, Nat.sub_sub, appendList_append]

/-- Of what is behind a text that does not fit, a sink takes nothing. -/
theorem write_of_full {s : Sink} {a : String} (h : (s.write a).2 = false) (b : String) :
    s.write (a ++ b) = s.write a := by
  unfold write at h ⊢
  cases hroom : s.room with
  | none => simp [hroom] at h
  | some n =>
    have hfull : n < (Text.utf8 a).length := by simpa [hroom] using h
    have htake : n - (Text.utf8 a).length = 0 := by omega
    have hsum : n - ((Text.utf8 a).length + (Text.utf8 b).length) = 0 := by omega
    have hle : ¬ (Text.utf8 a).length + (Text.utf8 b).length ≤ n := by omega
    have hle' : ¬ (Text.utf8 a).length ≤ n := by omega
    simp [Text.utf8_append, List.take_append, htake, hsum, hle, hle']

end Sink

namespace Asm

/-- **Two pieces are printed like one.** -/
theorem Printer.print_append (w : Printer) (a b : String) :
    (w.print a).print b = w.print (a ++ b) := by
  cases hw : w.full with
  | true => simp [Printer.print, hw]
  | false =>
    cases hfits : (w.sink.write a).2 with
    | true => simp [Printer.print, hw, hfits, Sink.write_of_fits hfits]
    | false => simp [Printer.print, hw, hfits, Sink.write_of_full hfits]

theorem Printer.print_empty (w : Printer) : w.print "" = w := by
  obtain ⟨⟨taken, room⟩, full⟩ := w
  have hbytes : Text.utf8 "" = [] := rfl
  cases full with
  | true => rfl
  | false => cases room <;> simp [Printer.print, Sink.write, hbytes]

/-! ### Steps -/

/-- Steps that print a text in pieces. Where there is no text they have no result, whatever room
there is. -/
structure Renders (steps : Printing Unit) (text : Option String) : Prop where
  whole : ∀ t, text = some t → ∀ w, steps.run w = (some (), w.print t)
  broken : text = none → ∀ w, (steps.run w).1 = none

theorem renders_pure : Renders (pure ()) (some "") where
  whole := by
    intro t ht w
    rw [← Option.some.inj ht, Printer.print_empty]
    rfl
  broken := nofun

theorem renders_piece (t : String) : Renders (piece t) (some t) where
  whole := by
    intro t' ht w
    rw [← Option.some.inj ht]
    rfl
  broken := nofun

theorem renders_failure : Renders failure none where
  whole := nofun
  broken := fun _ _ => rfl

theorem run_bind (a b : Printing Unit) (w : Printer) :
    (a >>= fun _ => b).run w = (a.run w).1.elim (none, (a.run w).2) fun _ => b.run (a.run w).2 := by
  rw [OptionT.run_bind]
  show (a.run w).1.elim (pure none) (fun _ => b.run) (a.run w).2 = _
  cases (a.run w).1 <;> rfl

/-- Steps one after the other print their texts one behind the other. -/
theorem Renders.bind {a b : Printing Unit} {s t : Option String} (ha : Renders a s)
    (hb : Renders b t) :
    Renders (a >>= fun _ => b) (do return (← s) ++ (← t)) := by
  cases s with
  | none =>
    refine ⟨nofun, fun _ w => ?_⟩
    rw [run_bind, ha.broken rfl w]
    rfl
  | some s =>
    have hrun : ∀ w, (a >>= fun _ => b).run w = b.run (w.print s) := fun w => by
      rw [run_bind, ha.whole s rfl w]
      rfl
    cases t with
    | none => exact ⟨nofun, fun _ w => by rw [hrun, hb.broken rfl]⟩
    | some t =>
      refine ⟨fun u hu w => ?_, nofun⟩
      rw [← Option.some.inj hu, hrun, hb.whole t rfl, Printer.print_append]

theorem Renders.congr {steps : Printing Unit} {s t : Option String} (h : Renders steps s)
    (hst : s = t) :
    Renders steps t := hst ▸ h

/-- A piece in front of steps. -/
theorem Renders.piece {a : Printing Unit} {s : Option String} (h : Renders a s) (t : String) :
    Renders (Asm.piece t >>= fun _ => a) (s.map (t ++ ·)) :=
  ((renders_piece t).bind h).congr (by cases s <;> rfl)

/-- Steps for each member of a list print the texts of the members one behind the other. -/
theorem renders_forM {α : Type} {f : α → Printing Unit} {g : α → Option String}
    (h : ∀ x, Renders (f x) (g x)) :
    ∀ xs : List α, Renders (xs.forM f) ((xs.mapM g).map String.join)
  | [] => renders_pure
  | x :: xs => by
    refine ((h x).bind (renders_forM h xs)).congr ?_
    rw [List.mapM_cons]
    cases g x <;> cases xs.mapM g <;> simp [String.join_cons]

theorem renders_forM_map {α : Type} {f : α → Printing Unit} {g : α → String}
    (h : ∀ x, Renders (f x) (some (g x))) (xs : List α) :
    Renders (xs.forM f) (some (String.join (xs.map g))) :=
  (renders_forM h xs).congr
    (by rw [show xs.mapM (fun x => some (g x)) = some (xs.map g) from List.mapM_pure]; rfl)

/-! ### Parts of a program -/

theorem Operand.renders (lead : String) (o : Operand) :
    Renders (o.print lead) (o.text?.map (lead ++ ·)) := by
  unfold Operand.print
  cases o.text? with
  | none => exact renders_failure
  | some text => exact renders_piece _

theorem join_map_lead (lead : String) : ∀ (t : String) (ts : List String),
    t ++ String.join (ts.map (lead ++ ·)) = lead.intercalate (t :: ts)
  | t, [] => by simp
  | t, u :: ts => by
    rw [String.intercalate_cons_cons, ← join_map_lead lead u ts, List.map_cons, String.join_cons]
    simp [String.append_assoc]

theorem mapM_map_lead (lead : String) (os : List Operand) :
    os.mapM (fun o => o.text?.map (lead ++ ·)) =
      (os.mapM Operand.text?).map (List.map (lead ++ ·)) := by
  induction os with
  | nil => rfl
  | cons o os ih =>
    rw [List.mapM_cons, List.mapM_cons, ih]
    cases o.text? <;> cases os.mapM Operand.text? <;> rfl

theorem renders_printOperands (operands : List Operand) :
    Renders (printOperands operands) (Line.operandsText? operands) := by
  cases operands with
  | nil => exact renders_pure
  | cons o os =>
    refine ((o.renders " ").bind (renders_forM (Operand.renders ", ") os)).congr ?_
    rw [mapM_map_lead, Line.operandsText?, List.mapM_cons]
    · cases o.text? with
      | none => rfl
      | some t =>
        cases os.mapM Operand.text? with
        | none => rfl
        | some ts =>
          show some (" " ++ t ++ String.join (ts.map (", " ++ ·))) =
            some (" " ++ ", ".intercalate (t :: ts))
          rw [String.append_assoc, join_map_lead]
    · exact List.cons_ne_nil o os

theorem Line.renders (l : Line) : Renders l.print l.text? := by
  obtain ⟨content, comment⟩ := l
  have hcomment : Renders (Line.printComment ⟨content, comment⟩) (some (if comment = "" then "" else
      (if content = .blank then "// " else "  // ") ++ comment)) := by
    unfold Line.printComment
    by_cases h : comment = ""
    · rw [if_pos h, if_pos h]
      exact renders_pure
    · rw [if_neg h, if_neg h]
      exact renders_piece _
  cases content with
  | blank =>
    refine (renders_pure.bind (hcomment.bind (renders_piece "\n"))).congr ?_
    simp [Line.text?]
  | label name =>
    refine ((renders_piece (name ++ ":")).bind (hcomment.bind (renders_piece "\n"))).congr ?_
    simp [Line.text?, String.append_assoc]
  | op mnemonic operands =>
    refine (((renders_printOperands operands).piece ("    " ++ mnemonic)).bind
      (hcomment.bind (renders_piece "\n"))).congr ?_
    cases h : Line.operandsText? operands <;> simp [Line.text?, String.append_assoc, h]

theorem Function.renders (f : Function) : Renders f.print f.text? := by
  have hscope : Renders f.printScope
      (some (if f.isGlobal then "    .globl " ++ f.name ++ "\n" else "")) := by
    unfold Function.printScope
    cases f.isGlobal with
    | true => exact renders_piece _
    | false => exact renders_pure
  have hhead : ".section    .text\n    .align 2\n" = ".section    .text\n" ++ "    .align 2\n" := by
    simp
  unfold Function.print Function.text?
  refine (((hscope.bind (((renders_forM Line.renders f.lines).piece _).piece _)).piece _).piece
    _).congr ?_
  cases f.lines.mapM Line.text? with
  | none => rfl
  | some ts => simp only [hhead, String.append_assoc]; rfl

theorem GlobalVariable.renders (g : GlobalVariable) : Renders g.print (some g.text) :=
  renders_piece g.text

theorem GlobalConstant.renders (c : GlobalConstant) : Renders c.print (some c.text) := by
  have hhead : ".section    .rodata\n    .align 2\n    .globl " =
      ".section    .rodata\n" ++ ("    .align 2\n" ++ "    .globl ") := by simp
  have htype : "\n    .type " = "\n" ++ "    .type " := by simp
  have hword : ":\n    .word " = ":\n" ++ "    .word " := by simp
  unfold GlobalConstant.print GlobalConstant.text
  refine ((((((renders_piece _).piece _).piece _).piece _).piece _).piece _).congr ?_
  simp only [hhead, htype, hword, String.append_assoc, Option.map_some]

/-- **A program is printed as its text.** -/
theorem Program.renders (p : Program) : Renders p.print p.text? := by
  have hglobals := renders_forM_map GlobalVariable.renders p.globals
  have hconstants := renders_forM_map GlobalConstant.renders p.constants
  have hfunctions := renders_forM Function.renders p.functions
  have hstart : "\"\n    .option nopic\n" = "\"\n" ++ "    .option nopic\n" := by simp
  unfold Program.print Program.text?
  refine (((hglobals.bind (hconstants.bind hfunctions)).piece _).piece _).congr ?_
  cases p.functions.mapM Function.text? with
  | none => rfl
  | some ts => simp only [hstart, String.append_assoc]; rfl

/-- A program with a text is printed like that text in one piece. -/
theorem Program.printTo_of_text {p : Program} {t : String} (h : p.text? = some t) (sink : Sink) :
    p.printTo sink = (if (sink.write t).2 then .ok () else .error .full, (sink.write t).1) := by
  have hrun := p.renders.whole t h { sink }
  unfold Program.printTo
  rw [hrun]
  cases hfits : (sink.write t).2 <;> simp [Printer.print, hfits]

/-- A program without a text is not printed, whatever room there is. -/
theorem Program.printTo_of_none {p : Program} (h : p.text? = none) (sink : Sink) :
    (p.printTo sink).1 = .error .unprintable := by
  have hrun := p.renders.broken h { sink }
  unfold Program.printTo
  generalize p.print.run { sink } = done at hrun ⊢
  obtain ⟨finished, w⟩ := done
  obtain rfl : finished = none := hrun
  rfl

end Asm

end RvBackend
