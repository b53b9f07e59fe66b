import RvBackend.Proofs.Simulation.Program

/-! # Runs of programs

A run of a program goes from its entry within a limit of steps. As long as the stack stays above the
data, what the machine shows of an evaluation is how the run ends, or how it stands when the limit
is reached.

* `StackStays`: the stack stays above the data.
* `Comes`: what a run comes to, whatever its limit.
* `Loaded.comes`: what the run of a program comes to. -/

namespace RvBackend.Simulation

open Asm (Register dataEnd)
open Machine (Listing Options Run State Steps Halts Traps runSteps)
open Meaning (Stop World Can)

/-! ### Limits -/

section

variable {options : Options} {code : Listing} {m pc : ℕ} {s s' s'' : State}
  (hentry : code.codeLabels.lookup options.names.entry = some pc)
  (hsteps : Steps options.names code m (s.start pc) s')

include hentry

theorem run_eq :
    Machine.run options code s = runSteps options code (s.start pc) 0 options.maxSteps := by
  rw [Machine.run, hentry]

include hsteps

/-- A run with more steps than its limit is stopped there. -/
theorem run_of_le (h : options.maxSteps ≤ m) : ∃ t,
    Machine.run options code s = ⟨.error (.stepLimit options.maxSteps), options.maxSteps, t⟩ := by
  obtain ⟨k, rfl⟩ := Nat.exists_eq_add_of_le h
  obtain ⟨t, ht, -⟩ := hsteps.split
  have hrun := Machine.runSteps_of_steps rfl ht 0 0
  rw [Nat.add_zero, Nat.zero_add] at hrun
  exact ⟨t, (run_eq hentry).trans hrun⟩

/-- A run with that many steps stands in their last state. -/
theorem state_run (h : options.maxSteps = m) : (Machine.run options code s).state = s' := by
  have hrun := Machine.runSteps_of_steps rfl hsteps 0 0
  rw [run_eq hentry, h]
  exact congrArg Run.state hrun

theorem run_of_halts (hend : Halts options.names code s' s'') (h : m < options.maxSteps) :
    Machine.run options code s = ⟨.ok s''.exit, m + 1, s''⟩ := by
  obtain ⟨left, hleft⟩ := Nat.exists_eq_add_of_lt h
  rw [run_eq hentry, hleft, Nat.add_assoc, Machine.runSteps_of_steps rfl hsteps, Nat.zero_add,
    Machine.runSteps_of_halts rfl hend]

theorem run_of_traps {mnemonic : String} {operands : List Machine.Operand} {t : Machine.Trap}
    (hend : Traps options.names code s' mnemonic operands t s'') (h : m < options.maxSteps) :
    ∃ i ∈ code.instructions, i.mnemonic = mnemonic ∧ i.operands = operands ∧
      Machine.run options code s = ⟨.error (.trap i.line mnemonic t), m + 1, s''⟩ := by
  obtain ⟨left, hleft⟩ := Nat.exists_eq_add_of_lt h
  obtain ⟨i, hi, hm, hos, hrun⟩ := Machine.runSteps_of_traps rfl hend m left
  refine ⟨i, hi, hm, hos, ?_⟩
  rw [run_eq hentry, hleft, Nat.add_assoc, Machine.runSteps_of_steps rfl hsteps, Nat.zero_add, hrun]

end

/-- The stack stays above the data, in each state up to the limit. -/
def StackStays (options : Options) (code : Listing) (s : State) : Prop :=
  ∀ n ≤ options.maxSteps,
    dataEnd code ≤ ((Machine.run { options with maxSteps := n } code s).state.reg Register.sp).toInt

theorem StackStays.sp_ge {options : Options} {code : Listing} {m pc : ℕ} {s s' : State}
    (h : StackStays options code s) (hentry : code.codeLabels.lookup options.names.entry = some pc)
    (hsteps : Steps options.names code m (s.start pc) s') (hm : m ≤ options.maxSteps) :
    dataEnd code ≤ (s'.reg Register.sp).toInt := by
  have hstate := h m hm
  rwa [@state_run { options with maxSteps := m } code m pc s s' hentry hsteps rfl] at hstate

/-! ### Runs of programs -/

/-- The options with which a program is run. -/
def optionsOf (abi : Abi) (limit : ℤ) : Options :=
  Options.ofParts abi.entry abi.printHelper abi.readHelper limit

/-- The run of a program on an input. -/
def runOf (abi : Abi) (code : Listing) (input : Machine.Input) (output : Sink) (limit : ℤ) : Run :=
  Machine.run (optionsOf abi limit) code (State.initial code input output)

theorem isEmpty_of_isIdentifier {name : String} (h : Asm.IsIdentifier name) :
    name.isEmpty = false := by
  rw [← Bool.not_eq_true, String.isEmpty_iff]
  rintro rfl
  exact h

theorem Proper.names {abi : Abi} {p : Program} (h : Proper abi p) (limit : ℤ) :
    (optionsOf abi limit).names = ⟨abi.entry, abi.printHelper, abi.readHelper⟩ := by
  have hentry := isEmpty_of_isIdentifier h.named.entry.1
  have hprint := isEmpty_of_isIdentifier h.named.printHelper.1
  have hread := isEmpty_of_isIdentifier h.named.readHelper.1
  simp [optionsOf, Options.ofParts, hentry, hprint, hread]

/-- A run has printed and read what an evaluation has. -/
structure SameText (w : World) (r : Run) : Prop where
  input : r.state.input = w.input
  output : r.state.output = w.output

/-- A run has come to the end of its program: the stack is as it was in the beginning, the result is
the value that the body returns, and the words of global variables are those of the world. -/
structure Finishes (p : Program) (code : Listing) (value : Option Int32) (w : World) (r : Run) :
    Prop where
  outcome : ∃ exit, r.outcome = .ok exit ∧ exit.balanced = true ∧ ∀ v ∈ value, exit.result = v
  globals : ∀ e ∈ Table.entriesOf p.scope, ∃ v,
    w.globals.lookup e.name = some v ∧ r.state.wordAt? code e.name = .ok v
  text : SameText w r

/-- An instruction that calls a name. -/
def IsCall (i : Machine.Instruction) (label : String) : Prop :=
  i.mnemonic = "jal" ∧ ∃ link, i.operands = [.reg link, .label label]

/-- A call has stopped a run. -/
structure Breaks (abi : Abi) (code : Listing) (t : Machine.Trap) (w : World) (r : Run) : Prop where
  outcome : ∃ i ∈ code.instructions, ∃ label, IsCall i label ∧
    FailsIn ⟨abi.entry, abi.printHelper, abi.readHelper⟩ code label t ∧
    r.outcome = .error (.trap i.line "jal" t)
  text : SameText w r

/-- A limit of `l` steps, within which the stack stays above the data. -/
structure Within (abi : Abi) (code : Listing) (input : Machine.Input) (output : Sink) (limit : ℤ)
    (l : ℕ) : Prop where
  stays : StackStays (optionsOf abi limit) code (State.initial code input output)
  steps : (optionsOf abi limit).maxSteps = l

section

variable (abi : Abi) (code : Listing) (input : Machine.Input) (output : Sink)

/-- There is a number of steps after which all runs end in the same way; a limit below it stops them
before. -/
def Settles (Q : Run → Prop) : Prop :=
  ∃ k, ∀ limit l, Within abi code input output limit l →
    (l < k → (runOf abi code input output limit).outcome = .error (.stepLimit l)) ∧
    (k ≤ l → (runOf abi code input output limit).steps = k ∧ Q (runOf abi code input output limit))

/-- There is a number of at least `n` steps up to which no run ends; `Q` holds of those that are
stopped then. -/
def Lasts (n : ℕ) (Q : Run → Prop) : Prop :=
  ∃ k, n ≤ k ∧ ∀ limit l, Within abi code input output limit l →
    (l ≤ k → (runOf abi code input output limit).outcome = .error (.stepLimit l)) ∧
    (l = k → Q (runOf abi code input output limit))

/-- What the runs of a program show, if the evaluation has fuel `n`: that the stack does not stay
above the data, the end, why they stop, or that there is no end yet. -/
inductive Comes (p : Program) (n : ℕ) : Prop
  | low (h : Settles abi code input output fun _ => False)
  | finishes {value : Option Int32} {w : World}
      (hcan : Can (Meaning.program abi p n) (World.initial p input output) (.ok value) w)
      (h : Settles abi code input output (Finishes p code value w))
  | breaks {stop : Stop} {w : World} {t : Machine.Trap}
      (hcan : Can (Meaning.program abi p n) (World.initial p input output) (.error stop) w)
      (ht : trapOf stop = some t) (h : Settles abi code input output (Breaks abi code t w))
  | goesOn {w : World}
      (hcan : Can (Meaning.program abi p n) (World.initial p input output) (.error .fuel) w)
      (h : Lasts abi code input output n (SameText w))

end

section

variable {abi : Abi} {code : Listing} {input : Machine.Input} {output : Sink} {n : ℕ}
  {Q Q' : Run → Prop}

theorem Settles.imp (h : Settles abi code input output Q) (hQ : ∀ r, Q r → Q' r) :
    Settles abi code input output Q' := by
  obtain ⟨k, hk⟩ := h
  refine ⟨k, fun limit l hl => ⟨(hk limit l hl).1, fun hle => ?_⟩⟩
  obtain ⟨hsteps, hend⟩ := (hk limit l hl).2 hle
  exact ⟨hsteps, hQ _ hend⟩

theorem Lasts.imp (h : Lasts abi code input output n Q) (hQ : ∀ r, Q r → Q' r) :
    Lasts abi code input output n Q' := by
  obtain ⟨k, hn, hk⟩ := h
  exact ⟨k, hn, fun limit l hl => ⟨(hk limit l hl).1, fun heq => hQ _ ((hk limit l hl).2 heq)⟩⟩

/-- Runs that never end within a limit last as long as one likes. -/
theorem Settles.lasts (n : ℕ) (h : Settles abi code input output fun _ => False) :
    Lasts abi code input output n Q := by
  obtain ⟨k, hk⟩ := h
  refine ⟨max k n, le_max_right k n, fun limit l hl => ⟨fun _ => ?_, fun heq => ?_⟩⟩
  · rcases Nat.lt_or_ge l k with hlt | hle
    · exact (hk limit l hl).1 hlt
    · exact absurd ((hk limit l hl).2 hle).2 not_false
  · exact absurd ((hk limit l hl).2 (heq ▸ le_max_left k n)).2 not_false

end

variable {abi : Abi} {p : Program} {listing : Listing}

theorem Left.halts {names : Machine.Names} {s s' : State} {w w' : World} {r : Option Int32}
    {S : Site} (h : Left S s w r w' s') (hra : s.reg Register.ra = Machine.haltAddress) :
    Halts names S.code s' s' :=
  Machine.halts_jr ofName?_ra h.jr (h.ra.trans hra)

theorem Loaded.finishes (h : Loaded abi p listing) {r : Run} {pc : ℕ} {s s' : State} {w w' : World}
    {value : Option Int32} (hleft : Left (siteOf abi listing) (s.start pc) w value w' s')
    (hr : r.outcome = .ok s'.exit) (hstate : r.state = s') : Finishes p listing value w' r := by
  refine ⟨⟨s'.exit, hr, ?_, hleft.result⟩, fun e he => ?_, ?_, ?_⟩
  · have hsp := hleft.sp.trans (Machine.reg_start_sp s pc)
    have hs0 := hleft.undisturbed.s0.trans (Machine.reg_start_s0 s pc)
    simp [State.exit, hsp, hs0]
  · obtain ⟨code, q, hlow, hprintable, hreflects⟩ := h.code
    have hname : e.name ∈ code.dataNames := hlow.data.1.mem_iff.mpr (List.mem_map_of_mem he)
    obtain ⟨a, ha⟩ := hreflects.lookup_data hprintable.nodup.of_append_left hname
    refine ⟨s'.cell a.toInt32, hleft.agrees.globals ha, ?_⟩
    rw [hstate, State.wordAt?, ha, State.cell, UInt32.toUInt32_toInt32]
  · rw [hstate]
    exact hleft.agrees.input
  · rw [hstate]
    exact hleft.agrees.output

/-- **Runs**: within any limit in which the stack stays above the data, a run goes on until it shows
what the program comes to. -/
theorem Loaded.comes (h : Loaded abi p listing) (input : Machine.Input) (output : Sink) (n : ℕ) :
    Comes abi listing input output p n := by
  obtain ⟨pc, hpc⟩ := h.entry
  have hnames := h.proper.names
  have hentry : ∀ limit, listing.codeLabels.lookup (optionsOf abi limit).names.entry = some pc := by
    intro limit
    rw [hnames]
    exact hpc
  by_cases hend : dataEnd listing ≤ Machine.stackTop.toInt
  rotate_left
  · -- the data reaches up to where the stack begins
    refine .low ⟨0, fun limit l hl => absurd ?_ hend⟩
    have hzero : Steps (optionsOf abi limit).names listing 0
      ((State.initial listing input output).start pc)
      ((State.initial listing input output).start pc) := rfl
    have hsp := hl.stays.sp_ge (hentry limit) hzero (Nat.zero_le _)
    rwa [Machine.reg_start_sp] at hsp
  obtain ⟨m, s', hsteps, hshown⟩ := h.sim hend hpc input output n
  have hsteps' : ∀ limit, Steps (optionsOf abi limit).names listing m
      ((State.initial listing input output).start pc) s' := by
    intro limit
    rw [hnames]
    exact hsteps
  have hearly : ∀ limit l, Within abi listing input output limit l → l ≤ m →
      (runOf abi listing input output limit).outcome = .error (.stepLimit l) := by
    intro limit l hl hle
    have hlimit := hl.steps
    obtain ⟨t, ht⟩ := run_of_le (hentry limit) (hsteps' limit) (by omega)
    rw [runOf, ht, hlimit]
  rcases hshown with hlow | ⟨r, w, hcan, hreached⟩
  · refine .low ⟨m, fun limit l hl => ⟨fun hlt => hearly limit l hl hlt.le, fun hle => ?_⟩⟩
    have hlimit := hl.steps
    have hsp := hl.stays.sp_ge (hentry limit) (hsteps' limit) (by omega)
    exact absurd hlow (not_lt.mpr hsp)
  cases hreached with
  | @ok value hleft =>
    refine .finishes hcan
      ⟨m + 1, fun limit l hl => ⟨fun hlt => hearly limit l hl (by omega), fun hle => ?_⟩⟩
    have hlimit := hl.steps
    have hrun := run_of_halts (hentry limit) (hsteps' limit)
      (hleft.halts (Machine.reg_start_ra _ pc)) (by omega)
    rw [runOf, hrun]
    exact ⟨rfl, h.finishes hleft rfl rfl⟩
  | error hshows =>
    cases hshows with
    | fuel hn hinput houtput =>
      refine .goesOn hcan ⟨m, hn, fun limit l hl => ⟨hearly limit l hl, fun hle => ?_⟩⟩
      have hlimit := hl.steps
      have hstate := state_run (hentry limit) (hsteps' limit) (by omega)
      refine ⟨?_, ?_⟩
      · rw [runOf, hstate, hinput]
      · rw [runOf, hstate, houtput]
    | @trap stop t s'' link label ht htraps hfails hinput houtput =>
      refine .breaks hcan ht
        ⟨m + 1, fun limit l hl => ⟨fun hlt => hearly limit l hl (by omega), fun hle => ?_⟩⟩
      have hlimit := hl.steps
      have htraps' : Traps (optionsOf abi limit).names listing s' "jal" [.reg link, .label label] t
          s'' := by
        rw [hnames]
        exact htraps
      obtain ⟨i, hi, hm, hos, hrun⟩ :=
        run_of_traps (hentry limit) (hsteps' limit) htraps' (by omega)
      rw [runOf, hrun]
      exact ⟨rfl, ⟨i, hi, label, ⟨hm, link, hos⟩, hfails, rfl⟩, hinput, houtput⟩

end RvBackend.Simulation
