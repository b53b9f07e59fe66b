import RvBackend.Proofs.Asm.Refusal
import RvBackend.Proofs.Lower.ReadBack

/-! # Frames that wrap around

The room for the slots of a function is counted in 64 bits. Just below the largest number it cannot
be rounded up to a multiple of 16 any more, and the size of the frame comes out as if there were no
slots. The code is made all the same, but the address of the last slot does not fit its instruction.

* `toInt_lowered_bmod`: the cursor after `n` entries, whether it wraps around or not.
* `frameSize_of_wrap`: the size of a frame whose room wraps around.
* `manyVariables_not_read`: a program that is made into a text that cannot be read. -/

namespace RvBackend.Lower

open Asm
open Machine (Listing)

variable {abi : Abi} {n : ℕ}

/-! ### The cursor -/

theorem toInt_lowered_bmod : ∀ {n : ℕ} {cursor : Int64},
    (lowered abi cursor n).toInt = (cursor.toInt - abi.slotSize.toInt * n).bmod (2 ^ 64)
  | 0, cursor => by
    have hlow := cursor.le_toInt
    have hlt := cursor.toInt_lt
    rw [lowered, Nat.cast_zero, mul_zero, sub_zero, Int.bmod_eq_of_le (by omega) (by omega)]
  | n + 1, cursor => by
    rw [lowered, toInt_lowered_bmod, Int64.toInt_sub, Int.bmod_sub_bmod]
    congr 1
    push_cast
    ring

/-- The room for `n` slots fits 64 bits only just, or not at all any more. -/
structure Wraps (abi : Abi) (n : ℕ) : Prop where
  slots : abi.slotSize.toInt * n < 2 ^ 63
  room : ¬ 8 + abi.slotSize.toInt * n ≤ 2 ^ 63 - 16

theorem Wraps.wide (h : Wraps abi n) : (lowered abi ({} : Progress).cursor n).toInt < -2 ^ 31 ∨
    2 ^ 32 ≤ (lowered abi ({} : Progress).cursor n).toInt := by
  have hslots := h.slots
  have hroom := h.room
  rw [toInt_lowered_bmod, toInt_start, Int.bmod_def]
  split <;> omega

/-! ### The frame -/

theorem toInt_alignUp_neg {cursor : Int64} {room : ℤ}
    (hcursor : cursor.toInt = (-room).bmod (2 ^ 64)) (hlow : 2 ^ 63 - 16 < room)
    (hhigh : room < 2 ^ 63 + 8) : (alignUp (-cursor) 16).toInt < 0 := by
  have hsum : (-cursor + 16 - 1).toInt = room + 15 - 2 ^ 64 := by
    have hminus : -cursor + 16 - 1 = 15 - cursor := by grind
    have hfifteen : (15 : Int64).toInt = 15 := by decide
    rw [hminus, Int64.toInt_sub, hcursor, hfifteen, Int.sub_bmod_bmod, Int.bmod_def]
    split <;> omega
  have hmask : (alignUp (-cursor) 16).toInt = _ :=
    @toInt_and_not_mask (-cursor + 16 - 1) 4 (by omega)
  rw [hmask, hsum, Int.bmod_eq_of_le (by omega) (by omega)]
  omega

theorem Wraps.alignUp_neg (h : Wraps abi n) :
    (alignUp (-lowered abi ({} : Progress).cursor n) 16).toInt < 0 := by
  have hslots := h.slots
  have hroom := h.room
  refine @toInt_alignUp_neg _ (8 + abi.slotSize.toInt * n) ?_ (by omega) (by omega)
  rw [toInt_lowered_bmod, toInt_start]
  congr 1
  omega

/-- The frame is as small as if there were no slots. -/
theorem frameSize_of_wrap (h : Wraps abi n) (hvalid : abi.Valid) (name : String) (loc : Location) :
    frameSize ⟨abi, name⟩ loc (lowered abi ({} : Progress).cursor n) = .ok abi.frameSize := by
  have hneg := h.alignUp_neg
  have hpos := hvalid.frame_pos
  have hmax : max abi.frameSize (alignUp (-lowered abi ({} : Progress).cursor n) 16) =
      abi.frameSize := by
    rw [← Int64.toInt_inj, toInt_max]
    exact max_eq_left (by omega)
  unfold frameSize
  simp only [hmax]
  exact if_pos (Int64.le_iff_toInt_le.mpr hvalid.frame_le)

/-! ### A program with too many slots -/

/-- A variable with its slot. -/
def variableAt (slot : Int64) : Entry :=
  { name := "x", kind := .variable, type := .integer, level := 1, slot }

/-- A program with `n` variables that prints the last one. -/
def manyVariables (n : ℕ) : RvBackend.Program where
  name := "variables"
  file := "variables.src"
  body := some (.mk {} (some ⟨List.replicate n (variableAt 0)⟩) []
    [.assign {} ⟨{}, "x"⟩ (.constant ⟨{}, .integer, 1⟩), .print {} (.variable ⟨{}, "x"⟩)])

theorem exists_made_installEntries (loc : Location) : ∀ (n params : ℕ) (p : Progress), ∃ a q,
    Made (installEntries abi loc params (List.replicate n (variableAt 0))) p a q ∧
      a = ((nextSlots abi p.cursor n).map variableAt, []) ∧ q.cursor = lowered abi p.cursor n
  | 0, params, p => ⟨_, p, made_pure_iff.mpr ⟨rfl, rfl⟩, rfl, rfl⟩
  | n + 1, params, p => by
    obtain ⟨_, q, hmade, rfl, hcursor⟩ := exists_made_installEntries loc n params
      { p with cursor := p.cursor - abi.slotSize, slots := p.slots.push (p.cursor - abi.slotSize) }
    have hscalar : (variableAt 0).type.isScalar = true := rfl
    rw [List.replicate_succ, installEntries, if_pos hscalar]
    refine ⟨_, q, made_bind_iff.mpr ⟨_, _, made_newSlot_iff.mpr ⟨rfl, rfl⟩, ?_⟩, rfl, hcursor⟩
    refine made_bind_iff.mpr ⟨[], _, made_lift_iff.mpr ⟨rfl, rfl⟩, ?_⟩
    exact made_bind_iff.mpr ⟨_, _, hmade, made_pure_iff.mpr ⟨rfl, rfl⟩⟩

theorem exists_made_install (ctx : Context) (loc : Location) (n : ℕ) (p : Progress) : ∃ a q,
    Made (install ctx loc (some ⟨List.replicate n (variableAt 0)⟩)) p a q ∧
      a = (some ⟨(nextSlots ctx.abi p.cursor n).map variableAt⟩, []) ∧
      q.cursor = lowered ctx.abi p.cursor n := by
  rw [install]
  refine exists_made_bind (exists_made_installEntries loc n 0 p) ?_
  rintro _ q ⟨rfl, hcursor⟩
  by_cases hn : ((nextSlots ctx.abi p.cursor n).map variableAt).isEmpty = true
  · simp only [hn]
    exact ⟨_, _, made_pure_iff.mpr ⟨rfl, rfl⟩, rfl, hcursor⟩
  · simp only [hn]
    refine exists_made_bind (exists_made_get q) ?_
    rintro _ _ ⟨rfl, rfl⟩
    refine exists_made_bind (exists_made_note _ _ _) fun _ q' hq' => ?_
    exact ⟨_, _, made_pure_iff.mpr ⟨rfl, rfl⟩, rfl, hq'.trans hcursor⟩

/-- The last variable is the one that the name stands for. -/
theorem find?_variables (globals : Scopes) (cursor : Int64) (n : ℕ) :
    Scopes.find? (Scopes.enter globals (some ⟨(nextSlots abi cursor (n + 1)).map variableAt⟩)) "x" =
      some (variableAt (lowered abi cursor (n + 1))) := by
  have hslots : nextSlots abi cursor (n + 1) = nextSlots abi cursor n ++
      [lowered abi cursor (n + 1)] := by
    rw [nextSlots_add, lowered_add]
    rfl
  simp [Scopes.find?, Scopes.enter, Table.find?, hslots, variableAt]

theorem resolve_variables (globals : Scopes) (cursor : Int64) (n : ℕ) (loc : Location) :
    resolve (Scopes.enter globals (some ⟨(nextSlots abi cursor (n + 1)).map variableAt⟩)) loc "x" =
      .ok (variableAt (lowered abi cursor (n + 1))) := by
  rw [resolve, find?_variables]
  rfl

/-- The code that assigns the variable. -/
def assignVariable (slot : Int64) : List Line :=
  [.remark "assign x"] ++ loadAddress t0 (variableAt slot) ++ push t0 ++
    (.op "li" [t0, .imm 1] :: push t0) ++ pop t1 ++ pop t0 ++ [.op "sw" [t1, .mem 0 "t0"]]

/-- The code that prints the variable. -/
def printVariable (abi : Abi) (slot : Int64) : List Line :=
  [.remark "print"] ++ ([.remark "load x"] ++ loadAddress t0 (variableAt slot) ++
    [.op "lw" [t0, .mem 0 "t0"]] ++ push t0) ++ pop a0 ++ [.op "jal" [ra, .label abi.printHelper]]

theorem exists_made_body (ctx : Context) (n : ℕ) (p : Progress) : ∃ a q,
    Made (optionalBlock ctx [] (manyVariables (n + 1)).body) p a q ∧
      a = assignVariable (lowered ctx.abi p.cursor (n + 1)) ++
        printVariable ctx.abi (lowered ctx.abi p.cursor (n + 1)) ∧
      q.cursor = lowered ctx.abi p.cursor (n + 1) := by
  have hresolve := fun loc => @resolve_variables ctx.abi [] p.cursor n loc
  rw [manyVariables, optionalBlock, block]
  refine exists_made_bind (exists_made_install ctx {} (n + 1) p) ?_
  rintro _ q ⟨rfl, hcursor⟩
  have hassign :
      assignCode ctx (Scopes.enter [] (some ⟨(nextSlots ctx.abi p.cursor (n + 1)).map variableAt⟩))
      ⟨{}, "x"⟩ (.constant ⟨{}, .integer, 1⟩) =
      .ok (assignVariable (lowered ctx.abi p.cursor (n + 1))) := by
    rw [assignCode, hresolve]
    rfl
  have hprint :
      printCode ctx (Scopes.enter [] (some ⟨(nextSlots ctx.abi p.cursor (n + 1)).map variableAt⟩))
      (.variable ⟨{}, "x"⟩) = .ok (printVariable ctx.abi (lowered ctx.abi p.cursor (n + 1))) := by
    rw [printCode, expression, load, hresolve]
    rfl
  refine ⟨_, q, made_bind_iff.mpr ⟨_, _, ?_, made_pure_iff.mpr ⟨rfl, rfl⟩⟩, rfl, hcursor⟩
  rw [statements, statement]
  refine made_bind_iff.mpr ⟨_, _, made_lift_iff.mpr ⟨hassign, rfl⟩, made_bind_iff.mpr ⟨_, _, ?_,
    made_pure_iff.mpr ⟨rfl, rfl⟩⟩⟩
  rw [statements, statement]
  refine made_bind_iff.mpr ⟨_, _, made_lift_iff.mpr ⟨hprint, rfl⟩, made_bind_iff.mpr ⟨[], _, ?_,
    made_pure_iff.mpr ⟨List.append_nil _, rfl⟩⟩⟩
  rw [statements]
  exact made_pure_iff.mpr ⟨rfl, rfl⟩

/-- The function that the program is made into. -/
def variablesFunction (abi : Abi) (slot : Int64) : Asm.Function where
  name := abi.entry
  isGlobal := true
  lines := frameCode ⟨abi, abi.entry⟩ abi.frameSize (assignVariable slot ++ printVariable abi slot)

/-- The code is made in spite of all. -/
theorem lowerProgram_manyVariables (h : Wraps abi (n + 1)) (hvalid : abi.Valid) : ∃ code,
    (lowerProgram abi (manyVariables (n + 1))).code = .ok code ∧
      code.functions = [variablesFunction abi (lowered abi ({} : Progress).cursor (n + 1))] := by
  suffices hmade : ∃ code q, Made (programSteps abi (manyVariables (n + 1))) {} code q ∧
      code.functions = [variablesFunction abi (lowered abi ({} : Progress).cursor (n + 1))] by
    obtain ⟨code, q, hmade, hfunctions⟩ := hmade
    exact ⟨code, congrArg Prod.fst hmade, hfunctions⟩
  rw [programSteps]
  -- the storage, of which there is none
  refine exists_made_bind (P := fun a _ => a = ([], [])) (exists_made_atStage ?_) ?_
  · refine exists_made_bind (exists_made_lift rfl _) fun _ _ _ => ?_
    refine exists_made_bind (exists_made_lift rfl _) ?_
    rintro _ q ⟨rfl, -⟩
    refine exists_made_bind (exists_made_note _ _ _) fun _ _ _ => ?_
    exact ⟨_, _, made_pure_iff.mpr ⟨rfl, rfl⟩, rfl⟩
  rintro _ q rfl
  have hnone : ∃ a q', Made ((manyVariables (n + 1)).functions.mapM fun f =>
      atStage (.function f.name)
      (lowerFunction abi (Scopes.enter [] (manyVariables (n + 1)).scope) f)) q a q' ∧ a = [] :=
      ⟨_, _, made_pure_iff.mpr ⟨rfl, rfl⟩, rfl⟩
  refine exists_made_bind hnone ?_
  rintro _ q' rfl
  -- the body and its frame
  have hbody : ∃ a q'', Made (atStage (.entry abi.entry) do
      beginFunction
      optionalBlock ⟨abi, abi.entry⟩ (Scopes.enter [] (manyVariables (n + 1)).scope)
        (manyVariables (n + 1)).body) q' a q'' ∧
      a = assignVariable (lowered abi ({} : Progress).cursor (n + 1)) ++
        printVariable abi (lowered abi ({} : Progress).cursor (n + 1)) ∧
      q''.cursor = lowered abi ({} : Progress).cursor (n + 1) := by
    have hbegin : ∃ u r, Made beginFunction q' u r ∧
        r = { q' with cursor := ({} : Progress).cursor } :=
      ⟨(), _, made_modify_iff.mpr rfl, rfl⟩
    refine exists_made_atStage (exists_made_bind hbegin ?_)
    rintro _ _ rfl
    exact exists_made_body ⟨abi, abi.entry⟩ n { q' with cursor := ({} : Progress).cursor }
  refine exists_made_bind hbody ?_
  rintro _ q'' ⟨rfl, hcursor⟩
  have hframe := frameSize_of_wrap h hvalid abi.entry (manyVariables (n + 1)).loc
  rw [← hcursor] at hframe
  have hfinish : ∃ a r, Made (finishFunction ⟨abi, abi.entry⟩ (manyVariables (n + 1)).loc true
      (assignVariable (lowered abi ({} : Progress).cursor (n + 1)) ++
        printVariable abi (lowered abi ({} : Progress).cursor (n + 1)))) q'' a r ∧
      a = variablesFunction abi (lowered abi ({} : Progress).cursor (n + 1)) := by
    rw [finishFunction]
    refine exists_made_bind (exists_made_get q'') ?_
    rintro _ _ ⟨rfl, rfl⟩
    refine exists_made_bind (exists_made_lift hframe _) ?_
    rintro _ _ ⟨rfl, rfl⟩
    refine exists_made_bind (exists_made_note _ _ _) fun _ _ _ => ?_
    exact ⟨_, _, made_pure_iff.mpr ⟨rfl, rfl⟩, rfl⟩
  refine exists_made_atStage (exists_made_bind hfinish ?_)
  rintro _ r rfl
  refine exists_made_bind (exists_made_get r) fun _ _ _ => ?_
  refine exists_made_bind (exists_made_note _ _ _) fun _ _ _ => ?_
  exact ⟨_, _, made_pure_iff.mpr ⟨rfl, rfl⟩, rfl⟩

/-- **A text that cannot be read**: the address of the last slot does not fit its instruction. -/
theorem manyVariables_not_read (h : Wraps abi (n + 1)) (hvalid : abi.Valid) :
    ∃ code, (lowerProgram abi (manyVariables (n + 1))).code = .ok code ∧
      (opsOf code.codeLines).length < 2 ^ 28 ∧ ∀ text listing,
        codeText (lowerProgram abi (manyVariables (n + 1))).code = .ok text →
      Listing.parse text ≠ .ok listing := by
  obtain ⟨code, hcode, hfunctions⟩ := lowerProgram_manyVariables h hvalid
  refine ⟨code, hcode, ?_, fun text listing htext hparse => ?_⟩
  · have hlength : (opsOf code.codeLines).length = 26 := by
      rw [Program.codeLines, hfunctions]
      rfl
    rw [hlength]
    norm_num
  · rw [codeText_eq_ok_iff hcode] at htext
    have hline :
        .op "addi" [.reg "t0", .reg "s0", .imm (lowered abi ({} : Progress).cursor (n + 1))] ∈
        (variablesFunction abi (lowered abi ({} : Progress).cursor (n + 1))).lines := by
      simp [variablesFunction, frameCode, assignVariable, loadAddress, variableAt, Entry.isGlobal,
        t0, s0]
    obtain ⟨e, he⟩ := parse_of_wide htext (hfunctions ▸ List.mem_singleton_self _) hline (by decide)
      (by decide) h.wide
    rw [he] at hparse
    cases hparse

end RvBackend.Lower
