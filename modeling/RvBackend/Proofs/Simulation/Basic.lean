import RvBackend.Proofs.Machine.Instructions
import RvBackend.Proofs.Meaning.Guesses

/-! # Simulation

An evaluation and a run of the machine go together if the machine gets to a state that shows what
the evaluation comes to. A run may also leave the ground on which this makes sense: the stack may
grow down to the data. From there on nothing is said.

* `Site` is what code runs on, `Site.Low` says that the stack has grown too far.
* `Sim S n x Q s w`: from the state `s`, the machine shows what `x` comes to in the world `w`; if
  there is too little fuel for that, it takes at least `n` steps.
* `Sim.bind`, `Sim.step`, `Sim.later`: evaluations and runs in sequence. -/

namespace RvBackend.Simulation

open Asm (Register)
open Machine (Listing State Trap Advances Traps Steps)
open Meaning (Evaluation Stop World Can)

/-- A listing with the names it is run with, and the lowest address that the stack may have. -/
structure Site where
  names : Machine.Names
  code : Listing
  floor : ℤ

/-- The stack has grown too far. -/
def Site.Low (S : Site) (s : State) : Prop := (s.reg Register.sp).toInt < S.floor

/-- The trap that shows why an evaluation stops. -/
def trapOf : Stop → Option Trap
  | .undefined => none
  | .fuel => none
  | .unknownFunction name => some (.unknownSymbol name)
  | .input fault => some (.input fault)
  | .outputFull => some .outputFull

/-- How calls of a name fail: those of helpers as they read or print, others if the name is no
label. -/
def FailsIn (names : Machine.Names) (code : Listing) (label : String) : Trap → Prop
  | .outputFull => label = names.printHelper
  | .input _ => label = names.readHelper
  | .unknownSymbol name => label = name ∧ code.codeLabels.lookup name = none
  | _ => False

/-- After `m` steps, a state shows why an evaluation stops in a world: the evaluation has no fuel
left and the machine has taken many steps, or a call stops the machine. -/
inductive Shows (S : Site) (n m : ℕ) (w : World) (s : State) : Stop → Prop
  | fuel (h : n ≤ m) (hinput : s.input = w.input) (houtput : s.output = w.output) :
      Shows S n m w s .fuel
  | trap {stop : Stop} {t : Trap} {s' : State} {link : Register} {label : String}
      (ht : trapOf stop = some t) (h : Traps S.names S.code s "jal" [.reg link, .label label] t s')
      (hfails : FailsIn S.names S.code label t) (hinput : s'.input = w.input)
      (houtput : s'.output = w.output) :
      Shows S n m w s stop

variable {α β : Type} {S : Site} {m n : ℕ} {x : Evaluation α} {f : α → Evaluation β}
  {Q R : α → World → State → Prop} {T : β → World → State → Prop} {w w' : World} {s s' : State}

/-- After `m` steps, a state shows what an evaluation comes to. -/
inductive Reached (S : Site) (n m : ℕ) (Q : α → World → State → Prop) (w : World) (s : State) :
    Except Stop α → Prop
  | ok {a : α} (h : Q a w s) : Reached S n m Q w s (.ok a)
  | error {stop : Stop} (h : Shows S n m w s stop) : Reached S n m Q w s (.error stop)

/-- From the state `s`, the machine shows what `x` comes to in the world `w`. -/
def Sim (S : Site) (n : ℕ) (x : Evaluation α) (Q : α → World → State → Prop) (s : State)
    (w : World) : Prop :=
  ∃ m s', Steps S.names S.code m s s' ∧
    (S.Low s' ∨ ∃ r w', Can x w r w' ∧ Reached S n m Q w' s' r)

/-! ### Sequences -/

theorem Shows.mono {k l : ℕ} {stop : Stop} (h : Shows S n m w s stop) (hn : k ≤ n) (hm : m ≤ l) :
    Shows S k l w s stop := by
  cases h with
  | fuel h hinput houtput => exact .fuel (hn.trans (h.trans hm)) hinput houtput
  | trap ht h hfails hinput houtput => exact .trap ht h hfails hinput houtput

theorem Reached.mono {k l : ℕ} {r : Except Stop α} (h : Reached S n m Q w s r) (hn : k ≤ n)
    (hm : m ≤ l) :
    Reached S k l Q w s r := by
  cases h with
  | ok h => exact .ok h
  | error h => exact .error (h.mono hn hm)

theorem Sim.of_can {a : α} (hcan : Can x w (.ok a) w') (h : Q a w' s) : Sim S n x Q s w :=
  ⟨0, s, rfl, .inr ⟨_, w', hcan, .ok h⟩⟩

theorem Sim.stop {stop : Stop} (hcan : Can x w (.error stop) w') (h : Shows S n 0 w' s stop) :
    Sim S n x Q s w :=
  ⟨0, s, rfl, .inr ⟨_, w', hcan, .error h⟩⟩

theorem Sim.antitone (h : Sim S n x Q s w) (hm : m ≤ n) : Sim S m x Q s w := by
  obtain ⟨k, s', hsteps, hend⟩ := h
  refine ⟨k, s', hsteps, hend.imp_right ?_⟩
  rintro ⟨r, w', hcan, hreached⟩
  exact ⟨r, w', hcan, hreached.mono hm le_rfl⟩

theorem Sim.conseq (h : Sim S n x Q s w) (hQ : ∀ a w' s', Q a w' s' → R a w' s') :
    Sim S n x R s w := by
  obtain ⟨k, s', hsteps, hend⟩ := h
  refine ⟨k, s', hsteps, hend.imp_right ?_⟩
  rintro ⟨r, w', hcan, hreached⟩
  refine ⟨r, w', hcan, ?_⟩
  cases hreached with
  | ok h => exact .ok (hQ _ _ _ h)
  | error h => exact .error h

theorem Sim.bind (h : Sim S n x Q s w) (hf : ∀ a w' s', Q a w' s' → Sim S n (f a) T s' w') :
    Sim S n (x >>= f) T s w := by
  obtain ⟨k, s', hsteps, hlow | ⟨r, w', hcan, hreached⟩⟩ := h
  · exact ⟨k, s', hsteps, .inl hlow⟩
  · cases hreached with
    | error hshows => exact ⟨k, s', hsteps, .inr ⟨_, w', hcan.bind_error, .error hshows⟩⟩
    | ok hq =>
      obtain ⟨l, s'', hsteps', hend⟩ := hf _ w' s' hq
      refine ⟨k + l, s'', hsteps.trans hsteps', hend.imp_right ?_⟩
      rintro ⟨r, w'', hcan', hreached⟩
      exact ⟨r, w'', hcan.bind hcan', hreached.mono le_rfl (Nat.le_add_left l k)⟩

theorem Sim.after {a : α} (hcan : Can x w (.ok a) w') (h : Sim S n (f a) T s w') :
    Sim S n (x >>= f) T s w := by
  obtain ⟨k, s', hsteps, hend⟩ := h
  refine ⟨k, s', hsteps, hend.imp_right ?_⟩
  rintro ⟨r, w'', hcan', hreached⟩
  exact ⟨r, w'', hcan.bind hcan', hreached⟩

theorem Sim.get {f : World → Evaluation β} (hf : ∀ gs, f (w.guessing gs) = f w)
    (h : Sim S n (f w) T s w) :
    Sim S n (get >>= f) T s w := by
  obtain ⟨k, s', hsteps, hend⟩ := h
  refine ⟨k, s', hsteps, hend.imp_right ?_⟩
  rintro ⟨r, w', hcan, hreached⟩
  exact ⟨r, w', hcan.get hf, hreached⟩

theorem Sim.andThen {R : α → World → State → Prop} (h : Sim S n x Q s w)
    (hnext : ∀ a w' s', Q a w' s' → Sim S n (pure a) R s' w') : Sim S n x R s w := by
  rw [← bind_pure x]
  exact h.bind hnext

/-- One step of the machine counts against the fuel. -/
theorem Sim.later (hstep : Advances S.names S.code s s') (h : ¬ S.Low s' → Sim S n x Q s' w) :
    Sim S (n + 1) x Q s w := by
  by_cases hlow : S.Low s'
  · exact ⟨1, s', ⟨s', hstep, rfl⟩, .inl hlow⟩
  · obtain ⟨k, s'', hsteps, hend⟩ := h hlow
    refine ⟨k + 1, s'', ⟨s', hstep, hsteps⟩, hend.imp_right ?_⟩
    rintro ⟨r, w', hcan, hreached⟩
    refine ⟨r, w', hcan, ?_⟩
    cases hreached with
    | ok h => exact .ok h
    | error h =>
      cases h with
      | fuel h hinput houtput => exact .error (.fuel (Nat.succ_le_succ h) hinput houtput)
      | trap ht h hfails hinput houtput => exact .error (.trap ht h hfails hinput houtput)

theorem Sim.step (hstep : Advances S.names S.code s s') (h : ¬ S.Low s' → Sim S n x Q s' w) :
    Sim S n x Q s w :=
  (Sim.later hstep h).antitone (Nat.le_succ n)

/-! ### What an instruction changes -/

/-- Nothing changes but some registers and the counter. -/
structure Still (rs : List Register) (s s' : State) : Prop where
  regs : ∀ r ∉ rs, s'.reg r = s.reg r
  cells : ∀ a, s'.cell a = s.cell a
  input : s'.input = s.input
  output : s'.output = s.output

/-- Nothing changes but one word of memory and the counter. -/
structure Poked (a v : Int32) (s s' : State) : Prop where
  regs : ∀ r, s'.reg r = s.reg r
  cell : s'.cell a = v
  cells : ∀ b, b ≠ a → s'.cell b = s.cell b
  input : s'.input = s.input
  output : s'.output = s.output

theorem Still.trans {rs rs' : List Register} {s'' : State} (h : Still rs s s')
    (h' : Still rs' s' s'') :
    Still (rs ++ rs') s s'' := by
  refine ⟨fun r hr => ?_, fun a => (h'.cells a).trans (h.cells a), h'.input.trans h.input,
    h'.output.trans h.output⟩
  rw [List.mem_append, not_or] at hr
  rw [h'.regs r hr.2, h.regs r hr.1]

theorem Still.mono {rs rs' : List Register} (h : Still rs s s') (hrs : rs ⊆ rs') : Still rs' s s' :=
  ⟨fun r hr => h.regs r fun hmem => hr (hrs hmem), h.cells, h.input, h.output⟩

/-- An instruction that puts a word into a register. -/
theorem Sim.set {r : Register} {v : Int32} (hstep : Advances S.names S.code s (s.setReg r v).next)
    (hr : r.val ≠ 0)
    (h : ∀ s', s'.pc = s.pc + 1 → s'.reg r = v → Still [r] s s' → ¬ S.Low s' → Sim S n x Q s' w) :
    Sim S n x Q s w := by
  refine Sim.step hstep fun hlow => h _ (by simp) ?_ ⟨?_, by simp, by simp, by simp⟩ hlow
  · rw [State.reg_next, State.reg_setReg_self _ _ hr]
  · intro r' hr'
    rw [List.mem_singleton] at hr'
    rw [State.reg_next, State.reg_setReg_of_ne _ _ hr']

/-- An instruction that puts a word into memory. -/
theorem Sim.poke {a v : Int32} (hstep : Advances S.names S.code s (s.poke a v).next)
    (h : ∀ s', s'.pc = s.pc + 1 → Poked a v s s' → Sim S n x Q s' w) : Sim S n x Q s w := by
  refine Sim.step hstep fun _ => h _ rfl ⟨fun _ => rfl, ?_, fun b hb => ?_, rfl, rfl⟩
  · rw [State.cell_next, State.cell_poke_self]
  · rw [State.cell_next, State.cell_poke_of_ne _ _ hb]

/-- A jump. -/
theorem Sim.jump {target : ℕ} (hstep : Advances S.names S.code s { s with pc := target })
    (h : ∀ s', s'.pc = target → Still [] s s' → Sim S n x Q s' w) : Sim S (n + 1) x Q s w :=
  Sim.later hstep fun _ => h _ rfl ⟨fun _ _ => rfl, fun _ => rfl, rfl, rfl⟩

theorem Sim.goTo {target : ℕ} (hstep : Advances S.names S.code s { s with pc := target })
    (h : ∀ s', s'.pc = target → Still [] s s' → Sim S n x Q s' w) : Sim S n x Q s w :=
  (Sim.jump hstep h).antitone (Nat.le_succ n)

/-- A jump that leaves an address in a register. -/
theorem Sim.link {r : Register} {v : Int32} {target : ℕ}
    (hstep : Advances S.names S.code s { s.setReg r v with pc := target }) (hr : r.val ≠ 0)
    (h : ∀ s', s'.pc = target → s'.reg r = v → Still [r] s s' → Sim S n x Q s' w) :
    Sim S (n + 1) x Q s w := by
  refine Sim.later hstep fun _ =>
    h _ rfl (State.reg_setReg_self s v hr) ⟨fun r' hr' => ?_, ?_, ?_, ?_⟩
  · exact State.reg_setReg_of_ne s v (by simpa using hr')
  · exact fun a => State.cell_setReg s v a
  · exact State.input_setReg s v
  · exact State.output_setReg s v

/-- A branch. -/
theorem Sim.branch {target : ℕ} {P : Prop} [Decidable P]
    (hstep : Advances S.names S.code s (if P then { s with pc := target } else s.next))
    (h : ∀ s', s'.pc = (if P then target else s.pc + 1) → Still [] s s' → Sim S n x Q s' w) :
    Sim S n x Q s w := by
  refine Sim.step hstep fun _ => h _ ?_ ?_
  · split <;> rfl
  · split <;> exact ⟨fun _ _ => rfl, fun _ => rfl, rfl, rfl⟩

end RvBackend.Simulation
