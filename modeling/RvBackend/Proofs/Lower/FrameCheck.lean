import RvBackend.Proofs.Lower.Wraparound

/-! # The check of frames

A function is refused if its frame gets larger than 2032 bytes, and nothing else is checked: neither
the cursor nor a single slot. The cursor is counted in 64 bits and may wrap around, once or many
times, before the size of the frame is taken from it. A frame whose room does not wrap around holds
all slots. One whose room does holds not all of them: a slot size above 2024 misses it with the
first slot, and a smaller one with the first slot below it.

* `InFrame`: the slots of a function lie in the frame that its code sets up.
* `room_of_slots`: slots that lie in a frame are given out without wrapping around.
* `slots_in_frame_iff`: which functions have all slots in their frame. -/

namespace RvBackend.Lower

open Asm

/-- All slots of a function lie in the frame that its code sets up, below the two words of the
caller. -/
def InFrame (abi : Abi) (f : RvBackend.Function) (g : Asm.Function) : Prop :=
  ∃ size body, g.lines = frameCode ⟨abi, f.name⟩ size body ∧
    ∀ e ∈ f.entries, -size.toInt ≤ e.slot.toInt ∧ e.slot.toInt ≤ -12

/-- The room for the slots of a function can be rounded up to a multiple of 16 in 64 bits. -/
def RoomFits (abi : Abi) (f : RvBackend.Function) : Prop :=
  8 + abi.slotSize.toInt * f.entries.length ≤ 2 ^ 63 - 16

instance (abi : Abi) (f : RvBackend.Function) : Decidable (RoomFits abi f) :=
  inferInstanceAs (Decidable (8 + abi.slotSize.toInt * f.entries.length ≤ 2 ^ 63 - 16))

theorem size_of_frameCode {ctx : Context} {size size' : Int64} {body body' : List Line}
    (h : frameCode ctx size body = frameCode ctx size' body') : size = size' := by
  unfold frameCode at h
  simp only [List.cons_append, List.nil_append, List.cons.injEq] at h
  obtain ⟨-, haddi, -⟩ := h
  simpa [Line.op] using haddi

section

variable {abi : Abi}

/-- One slot below a cursor in a frame: if it lies in the frame, then it has not wrapped around. -/
theorem toInt_sub_slotSize {cursor : Int64} (hslot : 0 < abi.slotSize.toInt)
    (hlow : -2032 ≤ cursor.toInt) (hhigh : cursor.toInt ≤ -8)
    (hbelow : (cursor - abi.slotSize).toInt ≤ -12) :
    (cursor - abi.slotSize).toInt = cursor.toInt - abi.slotSize.toInt := by
  have hlt := abi.slotSize.toInt_lt
  rw [Int64.toInt_sub, Int.bmod_def] at hbelow ⊢
  split at hbelow
  · omega
  · omega

/-- **Slots that lie in a frame** are given out without wrapping around, so the room for them is
small. -/
theorem room_of_slots (hslot : 0 < abi.slotSize.toInt) :
    ∀ {n : ℕ} {cursor : Int64}, -2032 ≤ cursor.toInt →
    cursor.toInt ≤ -8 → (∀ slot ∈ nextSlots abi cursor n, -2032 ≤ slot.toInt ∧ slot.toInt ≤ -12) →
      -2032 ≤ cursor.toInt - abi.slotSize.toInt * n
  | 0, cursor, hlow, _, _ => by simpa using hlow
  | n + 1, cursor, hlow, hhigh, hslots => by
    rw [nextSlots, List.forall_mem_cons] at hslots
    obtain ⟨⟨hin, hbelow⟩, hrest⟩ := hslots
    have hstep := toInt_sub_slotSize hslot hlow hhigh hbelow
    have hroom := room_of_slots hslot hin (by omega) hrest
    rw [hstep] at hroom
    push_cast
    rw [Int.mul_add, Int.mul_one]
    omega

theorem mem_slots_of_slotted {f f' : RvBackend.Function} (h : Slotted abi f f') {slot : Int64}
    (hslot : slot ∈ functionSlots abi f) : ∃ e ∈ f'.entries, e.slot = slot := by
  obtain ⟨k, hk⟩ := List.getElem?_of_mem hslot
  have hlt : k < f.entries.length := (getElem?_nextSlots abi hk).1
  refine ⟨{ f.entries[k] with slot }, List.mem_of_getElem? (i := k) ?_, rfl⟩
  rw [h.2, placed, List.getElem?_zipWith, List.getElem?_eq_getElem hlt, hk]

/-- The slots of one function lie in its frame exactly if the room for them fits. -/
theorem LoweredFunction.inFrame_iff {globals : Scopes} {f f' : RvBackend.Function}
    {g : Asm.Function} {p q : Progress} (h : LoweredFunction abi globals f p g q)
    (hf : Slotted abi f f') (hvalid : abi.Valid) :
    InFrame abi f' g ↔ RoomFits abi f := by
  constructor
  · rintro ⟨size, body, hlines, hslots⟩
    obtain ⟨_, _, _, size', _, _, _, _, -, -, hsize, -, -, hlines'⟩ := h
    rw [hf.1, hlines'] at hlines
    obtain rfl := size_of_frameCode hlines
    have hmax := (frameSize_eq_ok hsize).2.2
    have hroom : -2032 ≤ ({} : Progress).cursor.toInt - abi.slotSize.toInt * f.entries.length := by
      refine room_of_slots hvalid.slot_pos (by decide) (by decide) fun slot hslot => ?_
      obtain ⟨e, he, rfl⟩ := mem_slots_of_slotted hf hslot
      have := hslots e he
      omega
    rw [toInt_start] at hroom
    unfold RoomFits
    omega
  · intro hroom
    have hlayout := frameLayout_of_lowered h hf hvalid hroom
    obtain ⟨size, body, -, hlines, -, -, -, -, hin⟩ := hlayout.frame
    refine ⟨size, body, hlines, fun e he => ⟨hin e he, ?_⟩⟩
    have hsaved := hlayout.saved e he
    have hge := hvalid.slot_ge
    omega

theorem Slotted.roomFits_iff {f f' : RvBackend.Function} (h : Slotted abi f f') :
    RoomFits abi f' ↔ RoomFits abi f := by
  unfold RoomFits
  rw [h.length]

theorem forall₂_iff_left {α β : Type} {R : α → β → Prop} {P : α → Prop} {as : List α} {bs : List β}
    (h : List.Forall₂ (fun a b => R a b ↔ P a) as bs) : List.Forall₂ R as bs ↔ ∀ a ∈ as, P a := by
  induction h with
  | nil => simp
  | cons hab _ ih => rw [List.forall₂_cons, List.forall_mem_cons, hab, ih]

/-- The slots of each function of a program. -/
theorem LoweredAll.inFrame_iff {globals : Scopes} {fs : List RvBackend.Function}
    {gs : List Asm.Function} {p q : Progress} (h : LoweredAll abi globals fs p gs q)
    (hvalid : abi.Valid) :
    ∀ {fs' : List RvBackend.Function}, List.Forall₂ (Slotted abi) fs fs' →
      List.Forall₂ (fun f g => InFrame abi f g ↔ RoomFits abi f) fs' gs := by
  induction h with
  | nil =>
    intro fs' hfs
    cases hfs
    exact .nil
  | cons head _ ih =>
    intro fs' hfs
    cases hfs with
    | cons hf hfs => exact .cons ((head.inFrame_iff hf hvalid).trans hf.roomFits_iff.symm) (ih hfs)

/-- All functions of an accepted program, the entry included. -/
theorem inFrame_iff_of_code {p : RvBackend.Program} {code : Asm.Program} (hvalid : abi.Valid)
    (hcode : (lowerProgram abi p).code = .ok code) :
    List.Forall₂ (fun f g => InFrame abi f g ↔ RoomFits abi f)
      (routines abi (p.withSlots (lowerProgram abi p).slots)) code.functions := by
  obtain ⟨q, hlow, hslots⟩ := loweredProgram_of_code hcode
  have hgiven : q.slots.toList = (routines abi p).flatMap (functionSlots abi) :=
    hlow.functions.slots
  rw [hslots, hgiven]
  exact hlow.functions.inFrame_iff hvalid (routines_withSlots abi p)

end

/-- **The slots of a function lie in its frame** exactly if the room for them can be rounded up to a
multiple of 16 in 64 bits: for each function that is accepted, whatever comes behind it, and for all
functions of an accepted program, the entry included. -/
theorem slots_in_frame_iff {s : Settings} (hvalid : s.problems = []) :
    (∀ (globals : Scopes) (f : RvBackend.Function) (p q : Progress) (g : Asm.Function),
      Made (lowerFunction s.abi globals f) p g q →
        (InFrame s.abi (f.takeSlots (q.slots.toList.drop p.slots.size)).1 g ↔ RoomFits s.abi f)) ∧
    ∀ (p : RvBackend.Program) (code : Asm.Program), (lowerProgram s.abi p).code = .ok code →
      List.Forall₂ (fun f g => InFrame s.abi f g ↔ RoomFits s.abi f)
        (routines s.abi (p.withSlots (lowerProgram s.abi p).slots)) code.functions := by
  have habi := abi_valid hvalid
  refine ⟨fun globals f p q g hmade => ?_, fun p code hcode => inFrame_iff_of_code habi hcode⟩
  obtain ⟨-, -, hlow⟩ := made_lowerFunction hmade
  obtain ⟨f', htakes, hname, hentries⟩ := takes_function (length_functionSlots s.abi f)
  have hslots : q.slots.toList.drop p.slots.size = functionSlots s.abi f := by
    rw [hlow.gives.2, ← Array.length_toList, List.drop_left]
  have hf' : (f.takeSlots (functionSlots s.abi f)).1 = f' := by
    have := congrArg Prod.fst (htakes [])
    rwa [List.append_nil] at this
  rw [hslots, hf']
  exact hlow.inFrame_iff ⟨hname, hentries⟩ habi

theorem nested_slots_in_frame :
    ({} : Settings).problems = [] ∧ ∃ code, (lowerProgram {} nested).code = .ok code ∧
    List.Forall₂ (InFrame {}) (routines {} (nested.withSlots (lowerProgram {} nested).slots))
      code.functions := by
  obtain ⟨code, hcode⟩ := exists_ok_of_isOk (x := (lowerProgram {} nested).code) (by decide +kernel)
  have hvalid : ({} : Settings).problems = [] := by decide +kernel
  have hfits : ∀ f ∈ routines {} (nested.withSlots (lowerProgram {} nested).slots),
    RoomFits {} f := by decide +kernel
  exact ⟨hvalid, code, hcode,
    (forall₂_iff_left ((slots_in_frame_iff (s := {}) hvalid).2 nested code hcode)).mpr hfits⟩

/-- Slots of which four take up all of 64 bits. -/
def quarterSlots : Settings := { abi := { slotSize := 4611686018427387904 } }

/-- The last one of four such slots is the word in which the frame keeps the frame pointer of the
caller, and the function is accepted with the smallest frame. -/
theorem fourth_slot_on_saved_word : quarterSlots.problems = [] ∧
    ∃ code, (lowerProgram quarterSlots.abi (manyVariables 4)).code = .ok code ∧
      (lowerProgram quarterSlots.abi (manyVariables 4)).slots.getLast? = some (-8) ∧
      ¬ List.Forall₂ (InFrame quarterSlots.abi)
        (routines quarterSlots.abi ((manyVariables 4).withSlots
          (lowerProgram quarterSlots.abi (manyVariables 4)).slots)) code.functions := by
  have hvalid : quarterSlots.problems = [] := by decide +kernel
  obtain ⟨code, hcode⟩ :=
    exists_ok_of_isOk (x := (lowerProgram quarterSlots.abi (manyVariables 4)).code)
      (by decide +kernel)
  refine ⟨hvalid, code, hcode, by decide +kernel, fun hin => ?_⟩
  have hiff := inFrame_iff_of_code (abi_valid hvalid) hcode
  have hfits : ¬ ∀ f ∈ routines quarterSlots.abi ((manyVariables 4).withSlots
      (lowerProgram quarterSlots.abi (manyVariables 4)).slots), RoomFits quarterSlots.abi f := by
    decide +kernel
  exact hfits ((forall₂_iff_left hiff).mp hin)

end RvBackend.Lower
