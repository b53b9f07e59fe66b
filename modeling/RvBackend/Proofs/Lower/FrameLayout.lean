import Mathlib.Order.Bounds.Defs
import RvBackend.Proofs.Lower.Lines
import RvBackend.Proofs.Settings.Valid
import RvBackend.Proofs.Tree.Slots

/-! # The layout of frames

The entries of a function lie below its frame pointer, one slot after the other, under the two words
that the frame keeps for the caller. The frame has room for all of them, and its size and all
offsets into it fit the 12 bits that instructions have for them.

* `FrameLayout` is the layout of one frame, `Line.Encodable` says which numbers fit an instruction.
* `frame_layout_iff`: the layout holds as long as the room for the slots, rounded up, fits 64
  bits. -/

namespace RvBackend

/-! ### Numbers that fit an instruction -/

/-- Whether the numbers of an operand fit: 32 bits for `li`, and 12 bits elsewhere. -/
def Asm.Operand.Encodable (mnemonic : String) : Asm.Operand → Prop
  | .reg _ => True
  | .mem offset _ => -2048 ≤ offset.toInt ∧ offset.toInt ≤ 2047
  | .label _ => True
  | .imm n =>
    if mnemonic = "li" then -2 ^ 31 ≤ n.toInt ∧ n.toInt < 2 ^ 31 else -2048 ≤ n.toInt ∧
      n.toInt ≤ 2047

/-- Whether all numbers of a line fit. -/
def Asm.Line.Encodable (l : Asm.Line) : Prop :=
  match l.content with
  | .op mnemonic operands => ∀ o ∈ operands, o.Encodable mnemonic
  | _ => True

instance (mnemonic : String) : (o : Asm.Operand) → Decidable (o.Encodable mnemonic)
  | .reg _ => .isTrue trivial
  | .mem offset _ => inferInstanceAs (Decidable (-2048 ≤ offset.toInt ∧ offset.toInt ≤ 2047))
  | .label _ => .isTrue trivial
  | .imm n =>
    inferInstanceAs (Decidable (if mnemonic = "li" then -2 ^ 31 ≤ n.toInt ∧ n.toInt < 2 ^ 31
      else -2048 ≤ n.toInt ∧ n.toInt ≤ 2047))

instance : (l : Asm.Line) → Decidable l.Encodable
  | ⟨.blank, _⟩ => .isTrue trivial
  | ⟨.label _, _⟩ => .isTrue trivial
  | ⟨.op mnemonic operands, _⟩ => inferInstanceAs (Decidable (∀ o ∈ operands, o.Encodable mnemonic))

namespace Lower

open Asm

/-- Any names, and numbers of 12 bits. -/
def Names.anyNames : Names := .narrow (fun _ => True) (fun _ => True)

theorem OperandForm.encodable {abi : Abi} {m : String} {o : Operand}
    (h : OperandForm abi .anyNames m o) : o.Encodable m := by
  cases h with
  | work _ => trivial
  | argument _ => trivial
  | mem h _ => exact h
  | label _ => trivial
  | short h hm =>
    show if m = "li" then _ else _
    rw [if_neg hm]
    exact h
  | word h hm =>
    show if m = "li" then _ else _
    rw [if_pos hm]
    exact h

theorem Formed.encodable {abi : Abi} {code : List Line} (h : Formed abi .anyNames code) :
    ∀ l ∈ code, l.Encodable := by
  intro l hl
  cases h l hl with
  | remark _ => trivial
  | fresh _ => trivial
  | exit _ => trivial
  | op _ hform => exact fun o ho => (hform o ho).encodable

/-! ### One frame -/

/-- The layout of the frame of a function: the entries have their slots one below the other, under
the words of the caller, and the frame is the least one with room for them. -/
structure FrameLayout (abi : Abi) (f : RvBackend.Function) (g : Asm.Function) : Prop where
  slot : ∀ (k : ℕ) (e : Entry), f.entries[k]? = some e →
    e.slot.toInt = -8 - abi.slotSize.toInt * (k + 1)
  apart : f.entries.Pairwise fun e e' => e'.slot.toInt + abi.slotSize.toInt ≤ e.slot.toInt
  saved : ∀ e ∈ f.entries, e.slot.toInt + abi.slotSize.toInt ≤ -8
  aligned : ∀ e ∈ f.entries, 4 ∣ e.slot.toInt
  frame : ∃ size body room, g.lines = frameCode ⟨abi, f.name⟩ size body ∧
    IsLeast {n : ℤ | 16 ∣ n ∧ 8 + abi.slotSize.toInt * f.entries.length ≤ n} room ∧
    size.toInt = max abi.frameSize.toInt room ∧ 16 ∣ size.toInt ∧ size.toInt ≤ 2032 ∧
    ∀ e ∈ f.entries, -size.toInt ≤ e.slot.toInt

theorem getElem?_nextSlots (abi : Abi) : ∀ {n k : ℕ} {cursor slot : Int64},
    (nextSlots abi cursor n)[k]? = some slot → k < n ∧ slot = lowered abi cursor (k + 1)
  | 0, k, _, _, h => by simp [nextSlots] at h
  | n + 1, 0, _, _, h => by
    rw [nextSlots, List.getElem?_cons_zero, Option.some.injEq] at h
    exact ⟨Nat.succ_pos n, h.symm⟩
  | n + 1, k + 1, _, _, h => by
    rw [nextSlots, List.getElem?_cons_succ] at h
    obtain ⟨hk, rfl⟩ := getElem?_nextSlots abi h
    exact ⟨Nat.succ_lt_succ hk, rfl⟩

theorem toInt_start : ({} : Progress).cursor.toInt = -8 := by decide

section

variable {abi : Abi} {f f' : RvBackend.Function}

/-- The slots of a function as integers. -/
theorem toInt_functionSlots (hslot : 0 ≤ abi.slotSize.toInt)
    (hroom : 8 + abi.slotSize.toInt * f.entries.length ≤ 2 ^ 63) {k : ℕ} {slot : Int64}
    (h : (functionSlots abi f)[k]? = some slot) :
    k < f.entries.length ∧ slot.toInt = -8 - abi.slotSize.toInt * (k + 1) := by
  obtain ⟨hk, rfl⟩ := getElem?_nextSlots abi h
  refine ⟨hk, ?_⟩
  have hmul : abi.slotSize.toInt * (k + 1 : ℕ) ≤ abi.slotSize.toInt * f.entries.length :=
    Int.mul_le_mul_of_nonneg_left (by omega) hslot
  rw [toInt_lowered hslot (by rw [toInt_start]; omega), toInt_start]
  push_cast
  rfl

theorem mem_functionSlots (hslot : 0 ≤ abi.slotSize.toInt)
    (hroom : 8 + abi.slotSize.toInt * f.entries.length ≤ 2 ^ 63) {slot : Int64}
    (h : slot ∈ functionSlots abi f) :
    -(8 + abi.slotSize.toInt * f.entries.length) ≤ slot.toInt ∧
      slot.toInt + abi.slotSize.toInt ≤ -8 := by
  obtain ⟨k, hk⟩ := List.getElem?_of_mem h
  obtain ⟨hlt, hval⟩ := toInt_functionSlots hslot hroom hk
  have hmul : abi.slotSize.toInt * (k + 1 : ℕ) ≤ abi.slotSize.toInt * f.entries.length :=
    Int.mul_le_mul_of_nonneg_left (by omega) hslot
  have hnonneg : 0 ≤ abi.slotSize.toInt * k := Int.mul_nonneg hslot (Int.natCast_nonneg k)
  push_cast at hmul
  rw [Int.mul_add, Int.mul_one] at hmul hval
  omega

/-- The slots of a function whose entries carry them. -/
theorem Slotted.slot (h : Slotted abi f f') (hslot : 0 ≤ abi.slotSize.toInt)
    (hroom : 8 + abi.slotSize.toInt * f.entries.length ≤ 2 ^ 63) {k : ℕ} {e : Entry}
    (he : f'.entries[k]? = some e) :
    k < f.entries.length ∧ e.slot.toInt = -8 - abi.slotSize.toInt * (k + 1) := by
  rw [h.2, placed, List.getElem?_zipWith] at he
  split at he
  · next e' slot _ hslot' =>
    cases he
    exact toInt_functionSlots hslot hroom hslot'
  · cases he

theorem Slotted.length (h : Slotted abi f f') : f'.entries.length = f.entries.length := by
  rw [h.2, placed, List.length_zipWith, length_functionSlots, Nat.min_self]

/-- The room above a cursor, rounded up, if that can be done in 64 bits. -/
theorem toInt_alignUp_cursor {cursor : Int64} (hlow : -(2 ^ 63 - 16) ≤ cursor.toInt)
    (hhigh : cursor.toInt ≤ 0) :
    (alignUp (-cursor) 16).toInt = roundUp 16 (-cursor.toInt) := by
  have hneg : (-cursor).toInt = -cursor.toInt := by
    rw [Int64.toInt_neg]
    exact Int.bmod_eq_of_le (by omega) (by omega)
  have halign := @toInt_alignUp (-cursor) 4 (by omega)
  rw [hneg] at halign
  exact halign

/-- The size of a frame as an integer, if the room for its slots can be rounded up in 64 bits. -/
theorem toInt_frameSize {ctx : Context} {loc : Location} {cursor size : Int64}
    (h : frameSize ctx loc cursor = .ok size) (hlow : -(2 ^ 63 - 16) ≤ cursor.toInt)
    (hhigh : cursor.toInt ≤ 0) :
    size.toInt = max ctx.abi.frameSize.toInt (roundUp 16 (-cursor.toInt)) := by
  rw [(frameSize_eq_ok h).1, toInt_max, toInt_alignUp_cursor hlow hhigh]

/-- The slots that a function is given, and the cursor behind them. -/
theorem LoweredFunction.gives {globals : Scopes} {g : Asm.Function} {p q : Progress}
    (h : LoweredFunction abi globals f p g q) :
    q.cursor = lowered abi ({} : Progress).cursor f.entries.length ∧
      q.slots.toList = p.slots.toList ++ functionSlots abi f := by
  obtain ⟨scope, fill, body, size, log, log', p', p'', hscope, hbody, -, rfl, -, -⟩ := h
  have hgives := (made_install_gives hscope).trans (made_optionalBlock_gives hbody)
  rw [← List.length_append] at hgives
  exact ⟨hgives.cursor, hgives.slots⟩

/-- The size of a frame with room for `n` slots, if this room can be rounded up in 64 bits. -/
theorem toInt_frameSize_lowered {ctx : Context} {loc : Location} {size : Int64} {n : ℕ}
    (h : frameSize ctx loc (lowered ctx.abi ({} : Progress).cursor n) = .ok size)
    (hslot : 0 ≤ ctx.abi.slotSize.toInt) (hroom : 8 + ctx.abi.slotSize.toInt * n ≤ 2 ^ 63 - 16) :
    size.toInt = max ctx.abi.frameSize.toInt (roundUp 16 (8 + ctx.abi.slotSize.toInt * n)) ∧
      8 + ctx.abi.slotSize.toInt * n ≤ size.toInt ∧ size.toInt ≤ 2032 := by
  obtain ⟨-, -, hmax⟩ := frameSize_eq_ok h
  have hnonneg : 0 ≤ ctx.abi.slotSize.toInt * n := Int.mul_nonneg hslot (Int.natCast_nonneg _)
  have hval : (lowered ctx.abi ({} : Progress).cursor n).toInt =
      -(8 + ctx.abi.slotSize.toInt * n) := by
    rw [toInt_lowered hslot (by rw [toInt_start]; omega), toInt_start]
    omega
  have hsize := toInt_frameSize h (by omega) (by omega)
  rw [hval, Int.neg_neg] at hsize
  exact ⟨hsize, (le_roundUp (by norm_num) _).trans (hsize ▸ le_max_right _ _), hmax⟩

/-- The larger one of a multiple of 16 and of a room that is rounded up is a multiple of 16. -/
theorem dvd_frameSize {size frame room : ℤ} (hsize : size = max frame (roundUp 16 room))
    (hframe : 16 ∣ frame) :
    16 ∣ size := by
  rw [hsize]
  rcases max_choice frame (roundUp 16 room) with h | h
  · rw [h]; exact hframe
  · rw [h]; exact dvd_roundUp 16 _

/-- The size of the frame of a function, if the room for its slots can be rounded up in 64 bits. -/
theorem LoweredFunction.frame {globals : Scopes} {g : Asm.Function} {p q : Progress}
    (h : LoweredFunction abi globals f p g q) (hslot : 0 ≤ abi.slotSize.toInt)
    (hroom : 8 + abi.slotSize.toInt * f.entries.length ≤ 2 ^ 63 - 16) :
    ∃ size body, g.lines = frameCode ⟨abi, f.name⟩ size body ∧
      size.toInt =
      max abi.frameSize.toInt (roundUp 16 (8 + abi.slotSize.toInt * f.entries.length)) ∧
      8 + abi.slotSize.toInt * f.entries.length ≤ size.toInt ∧ size.toInt ≤ 2032 := by
  have hcursor := h.gives.1
  obtain ⟨scope, fill, body, size, log, log', p', p'', -, -, hsize, rfl, -, hlines⟩ := h
  have hlowered : p''.cursor = lowered abi ({} : Progress).cursor f.entries.length := hcursor
  rw [hlowered] at hsize
  obtain ⟨hval, hle, hmax⟩ := @toInt_frameSize_lowered ⟨abi, f.name⟩ _ _ _ hsize hslot hroom
  exact ⟨size, fill ++ body, hlines, hval, hle, hmax⟩

/-- **The frame of one function**, if the room for its slots can be rounded up in 64 bits. -/
theorem frameLayout_of_lowered {globals : Scopes} {g : Asm.Function} {p q : Progress}
    (h : LoweredFunction abi globals f p g q) (hf : Slotted abi f f') (hvalid : abi.Valid)
    (hroom : 8 + abi.slotSize.toInt * f.entries.length ≤ 2 ^ 63 - 16) : FrameLayout abi f' g := by
  have hslot : 0 ≤ abi.slotSize.toInt := by have := hvalid.slot_ge; omega
  obtain ⟨size, body, hlines, hval, hle, hmax⟩ := h.frame hslot hroom
  have hentry : ∀ e ∈ f'.entries, ∃ k : ℕ, k < f.entries.length ∧
      e.slot.toInt = -8 - abi.slotSize.toInt * (k + 1) := by
    intro e he
    obtain ⟨k, hk⟩ := List.getElem?_of_mem he
    exact ⟨k, hf.slot hslot (by omega) hk⟩
  refine ⟨?_, ?_, ?_, ?_, size, body, _, ?_, ?_, hval, ?_, hmax, ?_⟩
  · exact fun k e he => (hf.slot hslot (by omega) he).2
  · rw [List.pairwise_iff_getElem]
    intro i j hi hj hij
    have hval_i := (hf.slot hslot (by omega) (List.getElem?_eq_getElem hi)).2
    have hval_j := (hf.slot hslot (by omega) (List.getElem?_eq_getElem hj)).2
    have hmul : abi.slotSize.toInt * (i + 1 : ℕ) ≤ abi.slotSize.toInt * j :=
      Int.mul_le_mul_of_nonneg_left (by omega) hslot
    push_cast at hmul
    rw [Int.mul_add abi.slotSize.toInt j, Int.mul_one] at hval_j
    omega
  · intro e he
    obtain ⟨k, -, hk⟩ := hentry e he
    have : 0 ≤ abi.slotSize.toInt * k := Int.mul_nonneg hslot (Int.natCast_nonneg k)
    rw [Int.mul_add, Int.mul_one] at hk
    omega
  · intro e he
    obtain ⟨k, -, hk⟩ := hentry e he
    rw [hk]
    exact Int.dvd_sub (by norm_num) (hvalid.slot_dvd.mul_right _)
  · rw [hlines, hf.1]
  · rw [hf.length]
    exact isLeast_roundUp (by norm_num) _
  · exact dvd_frameSize hval hvalid.frame_dvd
  · intro e he
    obtain ⟨k, hlt, hk⟩ := hentry e he
    have hmul : abi.slotSize.toInt * (k + 1 : ℕ) ≤ abi.slotSize.toInt * f.entries.length :=
      Int.mul_le_mul_of_nonneg_left (by omega) hslot
    push_cast at hmul
    omega

end

/-! ### All frames of a program -/

section

variable {abi : Abi} {globals : Scopes} {fs : List RvBackend.Function} {gs : List Asm.Function}
  {p q : Progress}

theorem LoweredAll.slots (h : LoweredAll abi globals fs p gs q) :
    q.slots.toList = p.slots.toList ++ fs.flatMap (functionSlots abi) := by
  induction h with
  | nil => simp
  | cons head _ ih => rw [ih, head.gives.2, List.flatMap_cons, List.append_assoc]

theorem LoweredAll.frameLayouts (h : LoweredAll abi globals fs p gs q) (hvalid : abi.Valid) :
    ∀ {fs' : List RvBackend.Function}, List.Forall₂ (Slotted abi) fs fs' →
      (∀ f ∈ fs, 8 + abi.slotSize.toInt * f.entries.length ≤ 2 ^ 63 - 16) →
      List.Forall₂ (FrameLayout abi) fs' gs := by
  induction h with
  | nil =>
    intro fs' hfs _
    cases hfs
    exact .nil
  | cons head _ ih =>
    intro fs' hfs hroom
    rw [List.forall_mem_cons] at hroom
    cases hfs with
    | cons hf hfs => exact .cons (frameLayout_of_lowered head hf hvalid hroom.1) (ih hfs hroom.2)

/-- The room of each function is small if each frame can be computed. -/
theorem LoweredAll.room_le (h : LoweredAll abi globals fs p gs q) (hslot : 0 ≤ abi.slotSize.toInt)
    (hroom : ∀ f ∈ fs, 8 + abi.slotSize.toInt * f.entries.length ≤ 2 ^ 63 - 16) :
    ∀ f ∈ fs, 8 + abi.slotSize.toInt * f.entries.length ≤ 2032 := by
  induction h with
  | nil => simp
  | cons head _ ih =>
    rw [List.forall_mem_cons] at hroom ⊢
    obtain ⟨_, _, -, -, hle, hmax⟩ := head.frame hslot hroom.1
    exact ⟨hle.trans hmax, ih hroom.2⟩

end

theorem encodable_of_lowered {abi : Abi} {p : RvBackend.Program} {code : Asm.Program} {q : Progress}
    (h : LoweredProgram abi p code q) (hvalid : abi.Valid) (hp : Unplaced p)
    (hroom : ∀ f ∈ routines abi p, 8 + abi.slotSize.toInt * f.entries.length ≤ 2 ^ 63 - 16) :
    ∀ g ∈ code.functions, ∀ l ∈ g.lines, l.Encodable := by
  have hslot : 0 ≤ abi.slotSize.toInt := by have := hvalid.slot_ge; omega
  have hsmall := h.functions.room_le hslot hroom
  have hnames : Names.anyNames.AdmitsAll abi (Scopes.enter [] p.scope) (routines abi p) := by
    refine ⟨hvalid.frame_pos, ?_, trivial, trivial, fun _ _ => trivial, ?_⟩
    · refine Names.Sees.enter (fun t ht => absurd ht List.not_mem_nil) fun e he => ?_
      refine ⟨trivial, fun _ => trivial, ?_⟩
      rw [hp e he]
      exact ⟨by decide, by decide⟩
    · intro f hf
      refine ⟨fun _ _ => trivial, fun _ _ _ => trivial, fun _ _ => ⟨trivial, trivial⟩, ?_⟩
      intro slot hmem
      have hle := hsmall f hf
      have hbounds := mem_functionSlots hslot (by omega) hmem
      exact ⟨by omega, by omega⟩
  exact fun g hg => (formed_functions h.functions hnames g hg).encodable

/-- **The layout of all frames**: it holds exactly if the room for the slots of each function can be
rounded up to a multiple of 16 in 64 bits. -/
theorem frame_layout_iff {s : Settings} {p : RvBackend.Program} {code : Asm.Program}
    (hvalid : s.problems = []) (hp : Unplaced p) (hcode : (lowerProgram s.abi p).code = .ok code) :
    (List.Forall₂ (FrameLayout s.abi) (routines s.abi (p.withSlots (lowerProgram s.abi p).slots))
        code.functions ∧
      ∀ g ∈ code.functions, ∀ l ∈ g.lines, l.Encodable) ↔
    ∀ f ∈ routines s.abi p, 8 + s.abi.slotSize.toInt * f.entries.length ≤ 2 ^ 63 - 16 := by
  obtain ⟨q, hlow, hslots⟩ := loweredProgram_of_code hcode
  have habi := abi_valid hvalid
  have hgiven : q.slots.toList = (routines s.abi p).flatMap (functionSlots s.abi) :=
    hlow.functions.slots
  have hslotted := routines_withSlots s.abi p
  rw [hslots, hgiven]
  constructor
  · rintro ⟨hall, -⟩ f hf
    -- the frame is at least the room and at most 2032 bytes
    obtain ⟨i, hi, rfl⟩ := List.getElem_of_mem hf
    have hi' := hslotted.length_eq ▸ hi
    have hf' := hslotted.get hi hi'
    have hlayout := hall.get hi' (hall.length_eq ▸ hi')
    obtain ⟨size, _, room, -, hleast, hsize, -, hmax, -⟩ := hlayout.frame
    have hle := hleast.1.2
    rw [hf'.length] at hle
    have hroomle : room ≤ size.toInt := hsize ▸ le_max_right _ _
    simp only [List.get_eq_getElem] at hle
    omega
  · exact fun hexact => ⟨hlow.functions.frameLayouts habi hslotted hexact,
      encodable_of_lowered hlow habi hp hexact⟩

/-! ### A program with nested scopes, and one whose slots are too wide -/

/-- A function with a parameter and a constant, and a body with a variable and a loop around a
call. -/
def nested : RvBackend.Program where
  name := "nested"
  file := "nested.src"
  scope := some ⟨[{ name := "total", kind := .variable, type := .integer, level := 0 }]⟩
  functions := [{
    name := "scale"
    type := some .integer
    scope := some ⟨[{ name := "n", kind := .parameter, type := .integer, level := 1 },
      { name := "k", kind := .constant, type := .integer, level := 1, value := some 3 }]⟩
    body := some (.mk {} none []
      [.ret {} (.binary {} .times (.variable ⟨{}, "n"⟩) (.variable ⟨{}, "k"⟩))]) }]
  body := some (.mk {}
    (some ⟨[{ name := "x", kind := .variable, type := .integer, level := 1 }]⟩) []
    [.assign {} ⟨{}, "total"⟩ (.constant ⟨{}, .integer, 0⟩),
      .count {} (some ⟨[{ name := "i", kind := .variable, type := .integer, level := 2 }]⟩) "i"
        (.constant ⟨{}, .integer, 0⟩) (.constant ⟨{}, .integer, 3⟩)
        (some (.mk {} none [] [.assign {} ⟨{}, "x"⟩ (.call {} "scale" [.variable ⟨{}, "i"⟩]),
          .assign {} ⟨{}, "total"⟩
            (.binary {} .plus (.variable ⟨{}, "total"⟩) (.variable ⟨{}, "x"⟩))])),
      .print {} (.variable ⟨{}, "total"⟩)])

/-- Slots of almost 2^63 bytes: the room for one of them can no longer be rounded up. -/
def wideSlots : Settings := { abi := { slotSize := 9223372036854775788 } }

/-- A program with one variable. -/
def oneVariable : RvBackend.Program where
  name := "one"
  file := "one.src"
  body := some (.mk {}
    (some ⟨[{ name := "x", kind := .variable, type := .integer, level := 1 }]⟩) []
    [.assign {} ⟨{}, "x"⟩ (.constant ⟨{}, .integer, 1⟩), .print {} (.variable ⟨{}, "x"⟩),
      .ret {} (.variable ⟨{}, "x"⟩)])

theorem nested_frame_layout : ∃ code, (lowerProgram {} nested).code = .ok code ∧
    List.Forall₂ (FrameLayout {}) (routines {} (nested.withSlots (lowerProgram {} nested).slots))
      code.functions ∧ ∀ g ∈ code.functions, ∀ l ∈ g.lines, l.Encodable := by
  obtain ⟨code, hcode⟩ := exists_ok_of_isOk (x := (lowerProgram {} nested).code) (by decide +kernel)
  have hlayout := frame_layout_iff (s := {}) (by decide +kernel) (by decide +kernel) hcode
  exact ⟨code, hcode, hlayout.mpr (by decide +kernel)⟩

/-- With such slots, an offset does not fit its instruction, though the room itself fits 64 bits. -/
theorem wide_slots_not_encodable : wideSlots.problems = [] ∧ Unplaced oneVariable ∧
    (∀ f ∈ routines wideSlots.abi oneVariable,
      8 + wideSlots.abi.slotSize.toInt * f.entries.length ≤ 2 ^ 63 - 1) ∧
    ∃ code, (lowerProgram wideSlots.abi oneVariable).code = .ok code ∧
      ¬ ∀ g ∈ code.functions, ∀ l ∈ g.lines, l.Encodable := by
  refine ⟨by decide +kernel, by decide +kernel, by decide +kernel, ?_⟩
  have hcode : (lowerProgram wideSlots.abi oneVariable).code.toOption.any
      (fun code => decide (¬ ∀ g ∈ code.functions, ∀ l ∈ g.lines, l.Encodable)) = true := by
    decide +kernel
  cases h : (lowerProgram wideSlots.abi oneVariable).code with
  | error e => rw [h] at hcode; cases hcode
  | ok code =>
    rw [h] at hcode
    exact ⟨code, rfl, of_decide_eq_true hcode⟩

end Lower

end RvBackend
