import RvBackend.Proofs.Machine.Dispatch
import RvBackend.Proofs.Machine.State
import RvBackend.Proofs.Outcome

/-! # Effects of an instruction

What one instruction can do to a state, said once: `Effect` has a case for each way in which it can
end, and all that is known of an instruction's reach follows from these cases.

* `step_effect`: what a step does is one of the effects.
* `Framed`: all but the destination of an operation, one word and the two streams is as before.
* `instruction_effects`: an instruction that fails changes nothing, and one that is carried out
  stays in its frame. -/

namespace RvBackend

/-- What a sink has taken is what it had taken before, and more behind it. -/
theorem Sink.isPrefix_write (s : Sink) (text : String) :
    s.taken.toList <+: (s.write text).1.taken.toList := by
  unfold Sink.write
  cases s.room with
  | none => simp
  | some n => simp

namespace Machine

open Asm (Register)

/-! ### What an operation names -/

/-- The register that an operation puts a word into; of a call, the link register. -/
def Operation.destination? : Operation → Option Register
  | .loadNumber rd _ => some rd
  | .loadAddress rd _ => some rd
  | .unary _ rd _ => some rd
  | .binary _ rd _ _ => some rd
  | .immediate _ rd _ _ => some rd
  | .load rd _ _ => some rd
  | .call link _ => some link
  | .nop | .store .. | .jump _ | .jumpTo _ | .branchZero .. | .branch .. => none

/-- The address that an operation stores a word at. -/
def Operation.place? (s : State) : Operation → Option UInt32
  | .store _ offset base => some (s.address offset base)
  | _ => none

/-- The label that an operation calls. -/
def Operation.callee? : Operation → Option String
  | .call _ label => some label
  | _ => none

/-! ### Effects -/

/-- What an operation can do to a state, and how it ends. -/
inductive Effect (names : Names) (s : State) (op : Operation) : State → Outcome → Prop
  | refused (t : Trap) : Effect names s op s (.trapped t)
  | ended : Effect names s op s .halted
  | went (pc : ℕ) : Effect names s op { s with pc } .running
  | put {r : Register} (hr : op.destination? = some r) (v : Int32) (pc : ℕ) :
      Effect names s op { s.setReg r v with pc } .running
  | stored {a : UInt32} (ha : op.place? s = some a) (v : Int32) (pc : ℕ) :
      Effect names s op { s with memory := s.memory.insert a v, pc } .running
  | printed {link : Register} {output : Sink} (hop : op = .call link names.printHelper)
      (houtput : s.output.taken.toList <+: output.taken.toList) (v : Int32) (pc : ℕ) :
      Effect names s op { { s with output }.setReg link v with pc } .running
  | unprinted {link : Register} {output : Sink} (hop : op = .call link names.printHelper)
      (houtput : s.output.taken.toList <+: output.taken.toList) (t : Trap) :
      Effect names s op { s with output } (.trapped t)
  | read {link : Register} (hop : op = .call link names.readHelper) (input : Input) (n v : Int32)
      (pc : ℕ) :
      Effect names s op { ({ s with input }.setReg Register.a0 n).setReg link v with pc } .running
  | unread {link : Register} (hop : op = .call link names.readHelper) (input : Input) (t : Trap) :
      Effect names s op { s with input } (.trapped t)

section

variable {names : Names} {code : Listing} {s : State} {op : Operation}

theorem effect_put {r : Register} (hr : op.destination? = some r) (v : Int32) :
    Effect names s op (s.put r v).1 (s.put r v).2 := .put hr v _

theorem effect_goTo (label : String) :
    Effect names s op (s.goTo code label).1 (s.goTo code label).2 := by
  unfold State.goTo
  split
  · exact .went _
  · exact .refused _

theorem effect_loadAddress (r : Register) (label : String) : Effect names s (.loadAddress r label)
    (s.loadAddress code r label).1 (s.loadAddress code r label).2 := by
  unfold State.loadAddress
  split
  · exact effect_put rfl _
  · exact .refused _

theorem effect_load (r : Register) (offset : Int32) (base : Register) :
    Effect names s (.load r offset base)
    (s.load r (s.address offset base)).1 (s.load r (s.address offset base)).2 := by
  unfold State.load
  split
  · exact effect_put rfl _
  · exact .refused _

theorem effect_store (r : Register) (offset : Int32) (base : Register) :
    Effect names s (.store r offset base)
    (s.store r (s.address offset base)).1 (s.store r (s.address offset base)).2 := by
  unfold State.store
  split
  · exact .stored rfl _ _
  · exact .refused _

theorem effect_jumpTo (r : Register) :
    Effect names s (.jumpTo r) (s.jumpTo r).1 (s.jumpTo r).2 := by
  unfold State.jumpTo
  dsimp only
  split
  · exact .ended
  · split
    · exact .went _
    · exact .refused _

/-- A call of the helper that prints. -/
theorem effect_print (link : Register) : Effect names s (.call link names.printHelper)
    (s.callLabel names code link names.printHelper).1
      (s.callLabel names code link names.printHelper).2 := by
  have hextends := s.output.isPrefix_write (Text.decimal (s.reg Register.a0).toInt ++ "\n")
  simp only [State.callLabel, State.printInteger, if_true]
  cases (s.output.write (Text.decimal (s.reg Register.a0).toInt ++ "\n")).2 with
  | true => exact .printed rfl hextends _ _
  | false => exact .unprinted rfl hextends _

/-- A call of the helper that reads. -/
theorem effect_read (link : Register) (hother : names.readHelper ≠ names.printHelper) :
    Effect names s (.call link names.readHelper)
      (s.callLabel names code link names.readHelper).1
      (s.callLabel names code link names.readHelper).2 := by
  simp only [State.callLabel, State.readInteger, if_neg hother, if_true]
  cases s.input.nextInteger.1 with
  | ok n => exact .read rfl _ n _ _
  | error f => exact .unread rfl _ _

theorem effect_callLabel (link : Register) (label : String) : Effect names s (.call link label)
    (s.callLabel names code link label).1 (s.callLabel names code link label).2 := by
  by_cases hprint : label = names.printHelper
  · rw [hprint]
    exact effect_print link
  by_cases hread : label = names.readHelper
  · rw [hread] at hprint ⊢
    exact effect_read link hprint
  simp only [State.callLabel, if_neg hprint, if_neg hread]
  cases code.codeLabels.lookup label with
  | some pc => exact .put rfl _ _
  | none => exact .refused _

theorem effect_step (op : Operation) :
    Effect names s op (step names code s op).1 (step names code s op).2 := by
  cases op with
  | nop => exact .went _
  | loadNumber rd n => exact effect_put rfl n
  | loadAddress rd label => exact effect_loadAddress rd label
  | unary op rd rs => exact effect_put rfl _
  | binary op rd rs rs' => exact effect_put rfl _
  | immediate op rd rs n => exact effect_put rfl _
  | load rd offset base => exact effect_load rd offset base
  | store rs offset base => exact effect_store rs offset base
  | jump label => exact effect_goTo label
  | call link label => exact effect_callLabel link label
  | jumpTo r => exact effect_jumpTo r
  | branchZero c r label =>
    rw [step]
    split
    · exact effect_goTo label
    · exact .went _
  | branch c r r' label =>
    rw [step]
    split
    · exact effect_goTo label
    · exact .went _

/-- **What a step does** is one of the effects. -/
theorem step_effect {s' : State} {outcome : Outcome} (h : step names code s op = (s', outcome)) :
    Effect names s op s' outcome := by
  have heffect : Effect names s op (step names code s op).1 (step names code s op).2 :=
    effect_step op
  rw [h] at heffect
  exact heffect

/-- The output only grows. -/
theorem Effect.output {s' : State} {outcome : Outcome} (h : Effect names s op s' outcome) :
    s.output.taken.toList <+: s'.output.taken.toList := by
  cases h with
  | printed hop houtput => simpa using houtput
  | unprinted hop houtput => exact houtput
  | _ => simp

end

/-! ### Frames -/

/-- What an operation that is carried out leaves as it was. -/
structure Framed (names : Names) (op : Operation) (s s' : State) : Prop where
  /-- Only the destination changes, and the register of results in a call of the helper that
  reads. -/
  registers : ∀ r, s'.reg r ≠ s.reg r →
    op.destination? = some r ∨ r = Register.a0 ∧ op.callee? = some names.readHelper
  /-- Only the word that is stored changes. -/
  memory : ∀ a, s'.memory[a]? ≠ s.memory[a]? → op.place? s = some a
  input : op.callee? ≠ some names.readHelper → s'.input = s.input
  output : op.callee? ≠ some names.printHelper → s'.output = s.output

section

variable {names : Names} {s s' : State} {op : Operation}

theorem eq_of_reg_setReg_ne {r r' : Register} {v : Int32} (h : (s.setReg r v).reg r' ≠ s.reg r') :
    r' = r := by
  by_contra hne
  exact h (s.reg_setReg_of_ne v hne)

theorem Effect.framed (h : Effect names s op s' .running) : Framed names op s s' := by
  cases h with
  | went pc =>
    exact ⟨fun r hr => absurd rfl hr, fun a ha => absurd rfl ha, fun _ => rfl, fun _ => rfl⟩
  | put hr v pc =>
    refine ⟨fun r' hr' => .inl ?_, fun a ha => absurd ?_ ha, fun _ => s.input_setReg v,
      fun _ => s.output_setReg v⟩
    · rw [eq_of_reg_setReg_ne hr', hr]
    · rw [State.memory_setReg]
  | @stored a ha v pc =>
    refine ⟨fun r hr => absurd rfl hr, fun b hb => ?_, fun _ => rfl, fun _ => rfl⟩
    obtain rfl : a = b := by
      by_contra hne
      exact hb (by rw [Std.HashMap.getElem?_insert, if_neg (by simpa using hne)])
    exact ha
  | @printed link output hop houtput v pc =>
    subst hop
    refine ⟨fun r hr => .inl ?_, fun a ha => absurd ?_ ha, fun _ => State.input_setReg _ v,
      fun h => absurd rfl h⟩
    · have hreg : r = link := eq_of_reg_setReg_ne (s := { s with output }) hr
      rw [hreg]
      rfl
    · rw [State.memory_setReg]
  | @read link hop input n v pc =>
    subst hop
    refine ⟨fun r hr => ?_, fun a ha => absurd ?_ ha, fun h => absurd rfl h, fun _ => ?_⟩
    · by_cases hlink : r = link
      · exact .inl (by rw [hlink]; rfl)
      · refine .inr ⟨?_, rfl⟩
        rw [State.reg] at hr
        refine eq_of_reg_setReg_ne (s := { s with input }) (v := n) fun heq => hr ?_
        exact (State.reg_setReg_of_ne _ v hlink).trans heq
    · rw [State.memory_setReg, State.memory_setReg]
    · rw [State.output_setReg, State.output_setReg]

/-- At most two registers change. -/
theorem Framed.card_registers (h : Framed names op s s') :
    (Finset.univ.filter fun r => s'.reg r ≠ s.reg r).card ≤ 2 := by
  have hsubset :
      (Finset.univ.filter fun r => s'.reg r ≠ s.reg r) ⊆
          {op.destination?.getD Register.a0, Register.a0} := by
    intro r hr
    rw [Finset.mem_filter] at hr
    rw [Finset.mem_insert, Finset.mem_singleton]
    rcases h.registers r hr.2 with hdest | ⟨ha0, -⟩
    · rw [hdest]
      exact .inl rfl
    · exact .inr ha0
  exact (Finset.card_le_card hsubset).trans Finset.card_le_two

theorem Framed.memory_eq (h : Framed names op s s') :
    ∃ a : UInt32, ∀ b : UInt32, b ≠ a → s'.memory[b]? = s.memory[b]? := by
  refine ⟨(op.place? s).getD 0, fun b hb => ?_⟩
  by_contra hne
  rw [h.memory b hne] at hb
  exact hb rfl

/-- What an operation that fails leaves as it was: everything, except that a helper may have used up
input or output. -/
theorem Effect.trapped {t : Trap} (h : Effect names s op s' (.trapped t)) :
    s'.registers = s.registers ∧ s'.memory = s.memory ∧ s'.pc = s.pc ∧
      (op.callee? ≠ some names.printHelper ∧ op.callee? ≠ some names.readHelper →
        s'.input = s.input ∧ s'.output = s.output) := by
  cases h with
  | refused => exact ⟨rfl, rfl, rfl, fun _ => ⟨rfl, rfl⟩⟩
  | unprinted hop => exact ⟨rfl, rfl, rfl, fun hno => absurd (by rw [hop]; rfl) hno.1⟩
  | unread hop => exact ⟨rfl, rfl, rfl, fun hno => absurd (by rw [hop]; rfl) hno.2⟩

end

/-! ### Instructions by their texts -/

/-- A call of one of the helpers, with or without a link register. -/
def CallsHelper (names : Names) (mnemonic : String) (operands : List Operand) : Prop :=
  (mnemonic = "jal" ∨ mnemonic = "call") ∧ ∃ label,
    (label = names.printHelper ∨ label = names.readHelper) ∧
    (operands = [.label label] ∨ ∃ link, operands = [.reg link, .label label])

theorem operands_of_ofCall {ops : List Operand} {op : Operation} {label : String}
    (h : Operation.ofCall ops = .ok op) (hcallee : op.callee? = some label) :
    ops = [.label label] ∨ ∃ link, ops = [.reg link, .label label] := by
  unfold Operation.ofCall at h
  split at h
  · cases h
    cases hcallee
    exact .inl rfl
  · next link name =>
    cases h
    cases hcallee
    exact .inr ⟨link, rfl⟩
  · cases h

/-- Only the two mnemonics of a call stand for a call. -/
theorem call_of_decode {m : String} {ops : List Operand} {op : Operation} {label : String}
    (h : Operation.decode m ops = .ok op) (hcallee : op.callee? = some label) :
    (m = "jal" ∨ m = "call") ∧
      (ops = [.label label] ∨ ∃ link, ops = [.reg link, .label label]) := by
  unfold Operation.decode at h
  split at h
  case h_30 => exact ⟨.inl rfl, operands_of_ofCall h hcallee⟩
  case h_31 => exact ⟨.inr rfl, operands_of_ofCall h hcallee⟩
  all_goals
    simp only [Operation.ofUnary, Operation.ofBinary, Operation.ofImmediate, Operation.ofBranchZero,
      Operation.ofBranch, ok_bind_iff, ok_pure_iff, reduceCtorEq, Except.ok.injEq] at h
  case h_1 | h_33 => cases h; cases hcallee
  all_goals
    obtain ⟨_, -, h⟩ := h
    cases h
    cases hcallee

/-- **Effects of an instruction**, of any mnemonic and with any operands: if it fails, registers,
memory and counter are as before, and so are input and output unless it calls a helper; if it is
carried out and the program goes on, it stays in the frame of its operation, so that at most two
registers and one word change. -/
theorem instruction_effects (names : Names) (code : Listing) (s : State) (mnemonic : String)
    (operands : List Operand) {s' : State} {outcome : Outcome}
    (h : Dispatch.carry names code s (Operation.decode mnemonic operands) = (s', outcome)) :
    ((∃ t, outcome = .trapped t) → s'.registers = s.registers ∧ s'.memory = s.memory ∧
      s'.pc = s.pc ∧
      (¬ CallsHelper names mnemonic operands → s'.input = s.input ∧ s'.output = s.output)) ∧
    (outcome = .running →
      (∃ op, Operation.decode mnemonic operands = .ok op ∧ Framed names op s s') ∧
      (Finset.univ.filter fun r => s'.reg r ≠ s.reg r).card ≤ 2 ∧
      ∃ a : UInt32, ∀ b : UInt32, b ≠ a → s'.memory[b]? = s.memory[b]?) := by
  cases hdecode : Operation.decode mnemonic operands with
  | error m =>
    rw [hdecode] at h
    cases h
    refine ⟨fun _ => ⟨rfl, rfl, rfl, fun _ => ⟨rfl, rfl⟩⟩, fun hrunning => ?_⟩
    cases hrunning
  | ok op =>
    rw [hdecode] at h
    have heffect : Effect names s op s' outcome := step_effect h
    refine ⟨?_, ?_⟩
    · rintro ⟨t, rfl⟩
      obtain ⟨hregisters, hmemory, hpc, hstreams⟩ := heffect.trapped
      refine ⟨hregisters, hmemory, hpc,
        fun hno => hstreams ⟨fun hcallee => hno ?_, fun hcallee => hno ?_⟩⟩
      · obtain ⟨hm, hops⟩ := call_of_decode hdecode hcallee
        exact ⟨hm, _, .inl rfl, hops⟩
      · obtain ⟨hm, hops⟩ := call_of_decode hdecode hcallee
        exact ⟨hm, _, .inr rfl, hops⟩
    · rintro rfl
      have hframed := heffect.framed
      exact ⟨⟨op, rfl, hframed⟩, hframed.card_registers, hframed.memory_eq⟩

/-- A machine that has one number left to read. -/
def lastNumber : State := { input := .text ['7'] }

/-- The number is read with two registers changed, and there is none behind it: the next attempt
fails. -/
theorem reading_effects : ∃ s s' : State,
    Dispatch.carry {} {} lastNumber (Operation.decode "jal" [.reg 5, .label "readInt"]) =
    (s, .running) ∧
    s.reg Register.a0 = 7 ∧ s.reg 5 = codeAddress 1 ∧
    (Finset.univ.filter fun r => s.reg r ≠ lastNumber.reg r).card ≤ 2 ∧
    Dispatch.carry {} {} s (Operation.decode "jal" [.reg 5, .label "readInt"]) =
    (s', .trapped (.input .exhausted)) ∧
    s'.registers = s.registers ∧ s'.memory = s.memory ∧ s'.pc = s.pc := by
  let read (s : State) := Dispatch.carry {} {} s (Operation.decode "jal" [.reg 5, .label "readInt"])
  have hfirst : read lastNumber = ((read lastNumber).1, .running) :=
    Prod.ext rfl (by decide +kernel)
  have hsecond : read (read lastNumber).1 =
      ((read (read lastNumber).1).1, .trapped (.input .exhausted)) :=
    Prod.ext rfl (by decide +kernel)
  have hcount := ((instruction_effects {} {} lastNumber "jal" _ hfirst).2 rfl).2.1
  obtain ⟨hregisters, hmemory, hpc, -⟩ := (instruction_effects {} {} _ "jal" _ hsecond).1 ⟨_, rfl⟩
  exact ⟨_, _, hfirst, by decide +kernel, by decide +kernel, hcount, hsecond, hregisters, hmemory,
    hpc⟩

end Machine

end RvBackend
