import RvBackend.Proofs.Machine.Dispatch
import RvBackend.Proofs.Machine.State
import RvBackend.Proofs.Outcome

/-! # Safety of the machine

Whatever a text holds, and wherever its jumps lead, the machine keeps its own order: the first
register is zero, and the memory holds words at multiples of four only.

* `State.Kept`: the order of a state, which each step keeps (`State.Kept.step`).
* `Loader.Sound`: what the lines read so far have left, from which a listing gets its start
  (`sound_of_parse`).
* `Ends`: the ways in which a run can end.
* `runs_safe`: the runs of a text that was read, one after the other. -/

namespace RvBackend.Machine

open Asm (Register)

/-! ### Order in a state -/

/-- The first register is zero, and there are words at multiples of four only. -/
structure State.Kept (s : State) : Prop where
  zero : s.reg 0 = 0
  aligned : ∀ a ∈ s.memory, a % 4 = 0

namespace State.Kept

variable {names : Names} {code : Listing} {s s' : State} (h : s.Kept)

include h

theorem of_eq (hregisters : s'.registers = s.registers) (hmemory : s'.memory = s.memory) :
    s'.Kept where
  zero := by
    rw [reg, hregisters]
    exact h.zero
  aligned := by
    rw [hmemory]
    exact h.aligned

theorem setReg (r : Register) (v : Int32) : (s.setReg r v).Kept where
  zero := by
    by_cases hr : r = 0
    · rw [hr]
      exact h.zero
    · rw [reg_setReg_of_ne _ _ (Ne.symm hr)]
      exact h.zero
  aligned := by
    rw [memory_setReg]
    exact h.aligned

theorem next : s.next.Kept := h.of_eq rfl rfl

theorem insert {a : UInt32} (ha : a % 4 = 0) (v : Int32) :
    { s with memory := s.memory.insert a v }.Kept where
  zero := h.zero
  aligned b hb := by
    rcases Std.HashMap.mem_insert.mp hb with hab | hb
    · rw [← eq_of_beq hab]
      exact ha
    · exact h.aligned b hb

theorem put (r : Register) (v : Int32) : (s.put r v).1.Kept := (h.setReg r v).next

theorem goTo (label : String) : (s.goTo code label).1.Kept := by
  unfold State.goTo
  split
  · exact h.of_eq rfl rfl
  · exact h

theorem load (r : Register) (addr : UInt32) : (s.load r addr).1.Kept := by
  unfold State.load
  split
  · exact h.put r _
  · exact h

theorem store (r : Register) (addr : UInt32) : (s.store r addr).1.Kept := by
  unfold State.store
  split
  · next haddr => exact (h.insert haddr _).next
  · exact h

theorem loadAddress (r : Register) (label : String) : (s.loadAddress code r label).1.Kept := by
  unfold State.loadAddress
  split
  · exact h.put r _
  · exact h

theorem jumpTo (r : Register) : (s.jumpTo r).1.Kept := by
  unfold State.jumpTo
  dsimp only
  split
  · exact h
  · split
    · exact h.of_eq rfl rfl
    · exact h

theorem printInteger : s.printInteger.1.Kept := h.of_eq rfl rfl

theorem readInteger : s.readInteger.1.Kept := by
  have hread : { s with input := s.input.nextInteger.2 }.Kept := h.of_eq rfl rfl
  unfold State.readInteger
  dsimp only
  split
  · next v _ => exact hread.setReg Register.a0 v
  · exact hread

theorem callLabel (link : Register) (label : String) :
    (s.callLabel names code link label).1.Kept := by
  unfold State.callLabel
  dsimp only
  split
  · have hprint := h.printInteger
    split
    · next heq => rw [heq] at hprint; exact hprint.put link _
    · exact hprint
  · split
    · have hread := h.readInteger
      split
      · next heq => rw [heq] at hread; exact hread.put link _
      · exact hread
    · split
      · exact (h.setReg link _).of_eq rfl rfl
      · exact h

theorem start (pc : ℕ) : (s.start pc).Kept := (((h.setReg _ _).setReg _ _).setReg _ _).of_eq rfl rfl

theorem step (op : Operation) : (step names code s op).1.Kept := by
  cases op with
  | nop => exact h.next
  | loadNumber rd n => exact h.put rd n
  | loadAddress rd label => exact h.loadAddress rd label
  | unary op rd rs => exact h.put rd _
  | binary op rd rs rs' => exact h.put rd _
  | immediate op rd rs n => exact h.put rd _
  | load rd offset base => exact h.load rd _
  | store rs offset base => exact h.store rs _
  | jump label => exact h.goTo label
  | call link label => exact h.callLabel link label
  | jumpTo r => exact h.jumpTo r
  | branchZero c r label =>
    rw [Machine.step]
    split
    · exact h.goTo label
    · exact h.next
  | branch c r r' label =>
    rw [Machine.step]
    split
    · exact h.goTo label
    · exact h.next

theorem carry {o : Except Malformed Operation} {outcome : Outcome}
    (hcarry : Dispatch.carry names code s o = (s', outcome)) : s'.Kept := by
  cases o with
  | error m =>
    cases hcarry
    exact h
  | ok op =>
    have hstep : (Machine.step names code s op).1.Kept := h.step op
    rw [Dispatch.carry] at hcarry
    rw [hcarry] at hstep
    exact hstep

theorem steps {n : ℕ} (hsteps : Steps names code n s s') : s'.Kept := by
  induction n generalizing s with
  | zero =>
    obtain rfl : s = s' := hsteps
    exact h
  | succ n ih =>
    obtain ⟨t, ⟨i, op, -, -, hstep⟩, hrest⟩ := hsteps
    exact ih (h.carry (o := .ok op) hstep) hrest

end State.Kept

/-! ### Texts that were read -/

/-- The lines read so far have left operations of their texts, words at multiples of four, and such
an address for the next one. -/
structure Loader.Sound (l : Loader) : Prop where
  decoded : Dispatch.Decoded l.listing
  aligned : ∀ a ∈ l.listing.memory, a % 4 = 0
  next : l.next % 4 = 0

theorem aligned_iff (a : UInt32) : a % 4 = 0 ↔ a.toNat % 4 = 0 := by
  rw [← UInt32.toNat_inj, UInt32.toNat_mod]
  rfl

theorem aligned_add {a b : UInt32} (ha : a % 4 = 0) (hb : b % 4 = 0) : (a + b) % 4 = 0 := by
  rw [aligned_iff] at *
  rw [UInt32.toNat_add]
  omega

/-- Room is in whole words, also where the size wraps around. -/
theorem aligned_room (n : Int64) : (n + 3 &&& ~~~3).toUInt64.toUInt32 % 4 = 0 := by
  rw [aligned_iff]
  have hroom : (n + 3 &&& ~~~3).toUInt64.toUInt32.toNat = ((n + 3).toBitVec &&& ~~~3#64).toNat %
    2 ^ 32 := rfl
  have hlow : ((n + 3).toBitVec.toNat &&& (~~~3#64).toNat) % 2 ^ 2 = 0 := by
    rw [Nat.and_mod_two_pow]
    exact Nat.and_zero _
  rw [hroom, BitVec.toNat_and]
  omega

namespace Loader.Sound

variable {l l' : Loader} (hl : l.Sound)

include hl

theorem addLabel {line name : List Char} (h : l.addLabel line name = .ok l') : l'.Sound := by
  simp only [Loader.addLabel] at h
  split at h
  · cases h
  · split at h
    · cases h
    · split at h <;> (cases h; exact ⟨hl.decoded, hl.aligned, hl.next⟩)

theorem addRoom {args : List (List Char)} (h : l.addRoom args = .ok l') : l'.Sound := by
  unfold Loader.addRoom at h
  split at h
  · simp only at h
    split at h
    · cases h
    · next n _ =>
      split at h
      · cases h
      · split at h
        · cases h
        · cases h
          exact ⟨hl.decoded, hl.aligned, aligned_add hl.next (aligned_room (Int64.ofInt n))⟩
  · cases h

theorem addWord {arg : List Char} (h : l.addWord arg = .ok l') : l'.Sound := by
  unfold Loader.addWord at h
  split at h
  · cases h
  · cases h
    refine ⟨hl.decoded, fun a ha => ?_, aligned_add hl.next rfl⟩
    rcases Std.HashMap.mem_insert.mp ha with heq | ha
    · rw [← eq_of_beq heq]
      exact hl.next
    · exact hl.aligned a ha

theorem addWords {args : List (List Char)} (h : args.foldlM Loader.addWord l = .ok l') :
    l'.Sound := by
  induction args generalizing l with
  | nil =>
    cases h
    exact hl
  | cons arg args ih =>
    rw [List.foldlM_cons, ok_bind_iff] at h
    obtain ⟨m, hm, h⟩ := h
    exact ih (hl.addWord hm) h

theorem directive {name : String} {rest : List Char} (h : l.directive name rest = .ok l') :
    l'.Sound := by
  have hmode (b : Bool) : { l with inText := b }.Sound := ⟨hl.decoded, hl.aligned, hl.next⟩
  unfold Loader.directive at h
  split at h
  · cases h; exact hmode _
  · cases h; exact hmode _
  · cases h; exact hmode _
  · cases h; exact hmode _
  · cases h; exact hmode _
  · exact hl.addRoom h
  · exact hl.addWords h
  · cases h; exact hl

theorem addInstruction {line : ℕ} {mnemonic : String} {rest : List Char}
    (h : l.addInstruction line mnemonic rest = .ok l') : l'.Sound := by
  simp only [Loader.addInstruction] at h
  split at h
  · simp only [ok_bind_iff, ok_pure_iff] at h
    obtain ⟨operands, -, _, -, rfl⟩ := h
    refine ⟨fun i hi => ?_, hl.aligned, hl.next⟩
    rcases Array.mem_push.mp hi with hi | rfl
    · exact hl.decoded i hi
    · rfl
  · cases h

theorem addLine {number : ℕ} {line : List Char} (h : l.addLine number line = .ok l') :
    l'.Sound := by
  unfold Loader.addLine at h
  split at h
  · cases h
    exact hl
  · split at h
    · exact hl.addLabel h
    · simp only at h
      split at h
      · exact hl.directive h
      · exact hl.addInstruction h

theorem loadLines {number : ℕ} {lines : List (List Char)} (h : loadLines l number lines = .ok l') :
    l'.Sound := by
  induction lines generalizing l number with
  | nil =>
    cases h
    exact hl
  | cons line lines ih =>
    unfold Machine.loadLines at h
    split at h
    · cases h
    · next hline => exact ih (hl.addLine hline) h

end Loader.Sound

theorem sound_of_parse {text : String} {code : Listing} (h : Listing.parse text = .ok code) :
    Dispatch.Decoded code ∧ ∀ a ∈ code.memory, a % 4 = 0 := by
  have hstart : ({} : Loader).Sound :=
    ⟨fun i hi => absurd hi (Array.not_mem_empty i), fun a ha => absurd ha Std.HashMap.not_mem_empty,
      rfl⟩
  unfold Listing.parse at h
  cases hload : loadLines {} 1 (Text.splitOn '\n' text.toList) with
  | error e =>
    rw [hload] at h
    cases h
  | ok l =>
    rw [hload] at h
    obtain rfl : l.listing = code := Except.ok.inj h
    have hl := hstart.loadLines hload
    exact ⟨hl.decoded, hl.aligned⟩

/-! ### Ends of runs -/

/-- How a run that has begun in a state can end: at the limit, outside the text, or at an
instruction that traps or ends the program. An instruction is looked up only where there is one. -/
inductive Ends (options : Options) (code : Listing) (s : State) : Run → Prop where
  | limit {s' : State} (hsteps : Steps options.names code options.maxSteps s s') :
      Ends options code s ⟨.error (.stepLimit options.maxSteps), options.maxSteps, s'⟩
  | outside {n : ℕ} {s' : State} (hn : n < options.maxSteps)
      (hsteps : Steps options.names code n s s') (hpc : code.instructions.size ≤ s'.pc) :
      Ends options code s ⟨.error (.outside s'.pc), n, s'⟩
  | trapped {n : ℕ} {s' s'' : State} {t : Trap} (hn : n < options.maxSteps)
      (hsteps : Steps options.names code n s s') (hpc : s'.pc < code.instructions.size)
      (hstep : Dispatch.carry options.names code s' code.instructions[s'.pc].operation =
        (s'', .trapped t)) :
      Ends options code s
        ⟨.error (.trap code.instructions[s'.pc].line code.instructions[s'.pc].mnemonic t), n + 1,
          s''⟩
  | halted {n : ℕ} {s' s'' : State} (hn : n < options.maxSteps)
      (hsteps : Steps options.names code n s s') (hpc : s'.pc < code.instructions.size)
      (hstep : Dispatch.carry options.names code s' code.instructions[s'.pc].operation =
        (s'', .halted)) :
      Ends options code s ⟨.ok s''.exit, n + 1, s''⟩

section

variable {options : Options} {code : Listing} {s : State}

theorem Steps.snoc {names : Names} {n : ℕ} {s' s'' : State} (h : Steps names code n s s')
    (h' : Advances names code s' s'') :
    Steps names code (n + 1) s s'' :=
  h.trans ⟨s'', h', rfl⟩

theorem ends_runSteps {s' : State} {n left : ℕ} (hsteps : Steps options.names code n s s')
    (hleft : n + left = options.maxSteps) :
    Ends options code s (runSteps options code s' n left) := by
  induction left generalizing s' n with
  | zero =>
    obtain rfl : n = options.maxSteps := hleft
    exact .limit hsteps
  | succ left ih =>
    have hn : n < options.maxSteps := by omega
    rw [runSteps]
    by_cases hpc : s'.pc < code.instructions.size
    · have hi : code.instructions[s'.pc]? = some code.instructions[s'.pc] :=
        Array.getElem?_eq_getElem hpc
      rw [hi]
      dsimp only
      cases hop : code.instructions[s'.pc].operation with
      | error m =>
        refine .trapped hn hsteps hpc ?_
        rw [hop]
        rfl
      | ok op =>
        dsimp only
        cases hstep : step options.names code s' op with
        | mk s'' outcome =>
          have hcarry : Dispatch.carry options.names code s' code.instructions[s'.pc].operation =
              (s'', outcome) := by
            rw [hop]
            exact hstep
          cases outcome with
          | running => exact ih (hsteps.snoc ⟨_, op, hi, hop, hstep⟩) (by omega)
          | halted => exact .halted hn hsteps hpc hcarry
          | trapped t => exact .trapped hn hsteps hpc hcarry
    · rw [Array.getElem?_eq_none (Nat.le_of_not_lt hpc)]
      exact .outside hn hsteps (Nat.le_of_not_lt hpc)

theorem Ends.steps_le {r : Run} (h : Ends options code s r) : r.steps ≤ options.maxSteps := by
  cases h with
  | limit => exact le_rfl
  | outside hn => exact hn.le
  | trapped hn => exact hn
  | halted hn => exact hn

theorem Ends.kept {r : Run} (h : Ends options code s r) (hs : s.Kept) : r.state.Kept := by
  cases h with
  | limit hsteps => exact hs.steps hsteps
  | outside _ hsteps => exact hs.steps hsteps
  | trapped _ hsteps _ hstep => exact (hs.steps hsteps).carry hstep
  | halted _ hsteps _ hstep => exact (hs.steps hsteps).carry hstep

variable (options code s) in
/-- What is certain of a run from a state. -/
structure SafeRun : Prop where
  /-- The machine that looks at texts never comes to a place where it cannot go on. -/
  performed : Dispatch.run? options code s = some (run options code s)
  begun : s.Kept
  visited : ∀ pc n s', code.codeLabels.lookup options.names.entry = some pc →
    Steps options.names code n (s.start pc) s' → s'.Kept
  left : (run options code s).state.Kept
  steps : (run options code s).steps ≤ options.maxSteps
  ends : (code.codeLabels.lookup options.names.entry = none ∧
      run options code s = ⟨.error (.unknownEntry options.names.entry), 0, s⟩) ∨
    ∃ pc, code.codeLabels.lookup options.names.entry = some pc ∧
    Ends options code (s.start pc) (run options code s)

theorem safeRun_of_kept (hcode : Dispatch.Decoded code) (hs : s.Kept) : SafeRun options code s := by
  have hperformed : Dispatch.run? options code s = some (run options code s) :=
    Dispatch.run?_eq hcode s
  have hvisited : ∀ pc n s', code.codeLabels.lookup options.names.entry = some pc →
      Steps options.names code n (s.start pc) s' → s'.Kept :=
    fun pc _ _ _ hsteps => (hs.start pc).steps hsteps
  cases hentry : code.codeLabels.lookup options.names.entry with
  | none =>
    have hrun : run options code s = ⟨.error (.unknownEntry options.names.entry), 0, s⟩ := by
      rw [run, hentry]
    refine ⟨hperformed, hs, hvisited, ?_, ?_, .inl ⟨hentry, hrun⟩⟩
    · rw [hrun]
      exact hs
    · rw [hrun]
      exact Nat.zero_le _
  | some pc =>
    have hrun : run options code s = runSteps options code (s.start pc) 0 options.maxSteps := by
      rw [run, hentry]
    have hends : Ends options code (s.start pc) (run options code s) := by
      rw [hrun]
      exact ends_runSteps rfl (Nat.zero_add _)
    exact ⟨hperformed, hs, hvisited, hends.kept (hs.start pc), hends.steps_le,
      .inr ⟨pc, hentry, hends⟩⟩

variable (options code s) in
/-- The state after that many runs, one after the other. -/
def stateAfter : ℕ → State
  | 0 => s
  | k + 1 => (run options code (stateAfter k)).state

theorem safeRun_stateAfter (hcode : Dispatch.Decoded code) (hs : s.Kept) (k : ℕ) :
    SafeRun options code (stateAfter options code s k) := by
  induction k with
  | zero => exact safeRun_of_kept hcode hs
  | succ k ih => exact safeRun_of_kept hcode ih.left

end

/-- **Safety of the machine**: each of the runs of a text that was read, one after the other, is
safe. -/
theorem runs_safe {text : String} {code : Listing} (h : Listing.parse text = .ok code)
    (options : Options) (input : Input) (output : Sink) (k : ℕ) :
    SafeRun options code (stateAfter options code (State.initial code input output) k) := by
  obtain ⟨hcode, hmemory⟩ := sound_of_parse h
  exact safeRun_stateAfter hcode ⟨rfl, hmemory⟩ k

/-- A text that divides the least word by minus one, writes into its first register and jumps
there. -/
def straying : String :=
  "main:\n    li t0, -2147483648\n    li t1, -1\n    div zero, t0, t1\n" ++
    "    sw t0, -4(sp)\n    jr t0\n"

theorem straying_safe : ∃ code, Listing.parse straying = .ok code ∧ code.instructions.size = 5 ∧
    SafeRun {} code (stateAfter {} code (State.initial code .absent {}) 2) := by
  have hparse : (Listing.parse straying).toOption.map (fun code => code.instructions.size) =
    some 5 := by decide +kernel
  cases hcode : Listing.parse straying with
  | error e =>
    rw [hcode] at hparse
    cases hparse
  | ok code =>
    rw [hcode] at hparse
    exact ⟨code, rfl, Option.some.inj hparse, runs_safe hcode {} .absent {} 2⟩

end RvBackend.Machine
