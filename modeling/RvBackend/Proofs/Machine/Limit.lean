import RvBackend.Proofs.Machine.Effects
import RvBackend.Proofs.Machine.SafeRuns

/-! # The limit of steps

The limit of steps does nothing but cut a run off: a run that ends by itself is the same under every
limit that lets it come to its end, and under a lower one it has taken just so many steps and has
printed the beginning of what it prints.

* `Run.Stopped` and `Run.Strayed`: the ends that are not the limit's.
* `runSteps_limited`, `cut_of_steps`: the same run, and the part of it, under another limit.
* `limit_only_cuts`: both for the limits that a machine is given. -/

namespace RvBackend.Machine

/-- The options with another limit. -/
def Options.limited (options : Options) (limit : ℕ) : Options := { options with maxSteps := limit }

theorem Options.names_limited (options : Options) (limit : ℕ) :
    (options.limited limit).names = options.names := rfl

/-- The run ended at an instruction, which ended the program or failed. -/
def Run.Stopped (r : Run) : Prop :=
  (∃ e, r.outcome = .ok e) ∨ ∃ line mnemonic t, r.outcome = .error (.trap line mnemonic t)

/-- The run ended where there is no instruction. -/
def Run.Strayed (r : Run) : Prop := ∃ pc, r.outcome = .error (.outside pc)

/-- A run that the limit cut off, and that would have gone on as the other one. -/
structure Run.Cuts (cut full : Run) (limit : ℕ) : Prop where
  outcome : cut.outcome = .error (.stepLimit limit)
  steps : cut.steps = limit
  output : cut.state.output.taken.toList <+: full.state.output.taken.toList

section

variable {options : Options} {code : Listing} {s s' s'' : State} {n m left : ℕ}

/-! ### Output of steps -/

theorem output_of_carry {names : Names} {o : Except Malformed Operation} {outcome : Outcome}
    (h : Dispatch.carry names code s o = (s', outcome)) :
    s.output.taken.toList <+: s'.output.taken.toList := by
  cases o with
  | error m =>
    cases h
    exact List.prefix_rfl
  | ok op => exact (step_effect h).output

theorem output_of_steps {names : Names} (h : Steps names code n s s') :
    s.output.taken.toList <+: s'.output.taken.toList := by
  induction n generalizing s with
  | zero =>
    obtain rfl : s = s' := h
    exact List.prefix_rfl
  | succ n ih =>
    obtain ⟨t, ⟨i, op, -, -, hstep⟩, hrest⟩ := h
    exact (step_effect hstep).output.trans (ih hrest)

/-! ### Runs under another limit -/

theorem halts_of_carry {names : Names} (hpc : s.pc < code.instructions.size)
    (h : Dispatch.carry names code s code.instructions[s.pc].operation = (s', .halted)) :
    Halts names code s s' := by
  cases hop : code.instructions[s.pc].operation with
  | error m =>
    rw [hop] at h
    cases h
  | ok op =>
    rw [hop] at h
    exact ⟨_, op, Array.getElem?_eq_getElem hpc, hop, h⟩

theorem runSteps_of_trapped {t : Trap} (hpc : s.pc < code.instructions.size)
    (h : Dispatch.carry options.names code s code.instructions[s.pc].operation = (s', .trapped t)) :
    runSteps options code s n (left + 1) =
      ⟨.error (.trap code.instructions[s.pc].line code.instructions[s.pc].mnemonic t), n + 1,
        s'⟩ := by
  rw [runSteps, Array.getElem?_eq_getElem hpc]
  cases hop : code.instructions[s.pc].operation with
  | error m =>
    rw [hop] at h
    cases h
    simp only [hop]
  | ok op =>
    rw [hop] at h
    have hstep : step options.names code s op = (s', .trapped t) := h
    simp only [hop, hstep]

theorem runSteps_of_outside (hpc : code.instructions.size ≤ s.pc) :
    runSteps options code s n (left + 1) = ⟨.error (.outside s.pc), n, s⟩ := by
  rw [runSteps, Array.getElem?_eq_none hpc]

/-- A limit that comes before the end cuts the run off. -/
theorem cut_of_steps (h : Steps options.names code n s s') (hm : m ≤ n) :
    ∃ t, runSteps (options.limited m) code s 0 m = ⟨.error (.stepLimit m), m, t⟩ ∧
      t.output.taken.toList <+: s'.output.taken.toList := by
  obtain ⟨k, rfl⟩ := Nat.exists_eq_add_of_le hm
  obtain ⟨t, hbefore, hbehind⟩ := h.split
  refine ⟨t, ?_, output_of_steps hbehind⟩
  have hrun := runSteps_of_steps (options.names_limited m) hbefore 0 0
  rw [Nat.add_zero, Nat.zero_add] at hrun
  exact hrun

/-- What steps and an end behind them make of a run under any limit that leaves room for the end. -/
theorem runSteps_of_end {r : Run} (h : Steps options.names code n s s')
    (hend : ∀ k left, runSteps (options.limited k) code s' n (left + 1) = r) (hm : n < m) :
    runSteps (options.limited m) code s 0 m = r := by
  obtain ⟨k, rfl⟩ := Nat.exists_eq_add_of_lt hm
  rw [Nat.add_assoc]
  have hrun := runSteps_of_steps (options.names_limited (n + (k + 1))) h 0 (k + 1)
  rw [Nat.zero_add] at hrun
  exact hrun.trans (hend _ k)

/-- **The same run under another limit**, and the part of it under a lower one, for a run that has
begun. -/
theorem runSteps_limited {r : Run} (h : Ends (options.limited m) code s r) :
    (r.Stopped → r.steps ≤ m ∧ (∀ k, r.steps ≤ k → runSteps (options.limited k) code s 0 k = r) ∧
      ∀ k < r.steps, (runSteps (options.limited k) code s 0 k).Cuts r k) ∧
    (r.Strayed → r.steps < m ∧ (∀ k, r.steps < k → runSteps (options.limited k) code s 0 k = r) ∧
      ∀ k ≤ r.steps, (runSteps (options.limited k) code s 0 k).Cuts r k) := by
  have hcut {n : ℕ} {s' : State} (hsteps : Steps options.names code n s s')
      (houtput : s'.output.taken.toList <+: r.state.output.taken.toList) {k : ℕ} (hk : k ≤ n) :
      (runSteps (options.limited k) code s 0 k).Cuts r k := by
    obtain ⟨t, hrun, ht⟩ := cut_of_steps hsteps hk
    rw [hrun]
    exact ⟨rfl, rfl, ht.trans houtput⟩
  cases h with
  | limit => exact ⟨by simp [Run.Stopped], by simp [Run.Strayed]⟩
  | outside hn hsteps hpc =>
    refine ⟨by simp [Run.Stopped],
      fun _ => ⟨hn, fun k hk => ?_, fun k hk => hcut hsteps List.prefix_rfl hk⟩⟩
    exact runSteps_of_end hsteps (fun _ _ => runSteps_of_outside hpc) hk
  | trapped hn hsteps hpc hstep =>
    refine ⟨fun _ => ⟨hn, fun k hk => ?_, fun k hk => ?_⟩, by simp [Run.Strayed]⟩
    · exact runSteps_of_end hsteps (fun _ _ => runSteps_of_trapped hpc hstep) hk
    · exact hcut hsteps (output_of_carry hstep) (Nat.le_of_lt_succ hk)
  | halted hn hsteps hpc hstep =>
    refine ⟨fun _ => ⟨hn, fun k hk => ?_, fun k hk => ?_⟩, by simp [Run.Strayed]⟩
    · have hhalts : Halts options.names code _ _ := halts_of_carry hpc hstep
      exact runSteps_of_end hsteps
        (fun k left => runSteps_of_halts (options.names_limited k) hhalts _ left) hk
    · exact hcut hsteps (output_of_carry hstep) (Nat.le_of_lt_succ hk)

theorem run_limited {r : Run} (h : run (options.limited m) code s = r) :
    (r.Stopped → r.steps ≤ m ∧ (∀ k, r.steps ≤ k → run (options.limited k) code s = r) ∧
      ∀ k < r.steps, (run (options.limited k) code s).Cuts r k) ∧
    (r.Strayed → r.steps < m ∧ (∀ k, r.steps < k → run (options.limited k) code s = r) ∧
      ∀ k ≤ r.steps, (run (options.limited k) code s).Cuts r k) := by
  cases hentry : code.codeLabels.lookup options.names.entry with
  | none =>
    have hrun : run (options.limited m) code s =
        ⟨.error (.unknownEntry options.names.entry), 0, s⟩ := by
      simp only [run, Options.limited, hentry]
    rw [← h, hrun]
    exact ⟨by simp [Run.Stopped], by simp [Run.Strayed]⟩
  | some pc =>
    have hrun (k : ℕ) : run (options.limited k) code s = runSteps (options.limited k) code
        (s.start pc) 0 k := by
      simp only [run, Options.limited, hentry]
    simp only [hrun] at h ⊢
    refine runSteps_limited ?_
    rw [← h]
    exact ends_runSteps rfl (Nat.zero_add _)

end

/-! ### Limits as they are given -/

theorem ofParts_limited (entry printHelper readHelper : String) {limit : ℤ} (h : 0 < limit) :
    Options.ofParts entry printHelper readHelper limit =
      (Options.ofParts entry printHelper readHelper 1).limited limit.toNat := by
  simp [Options.ofParts, Options.limited, h]

/-- **The limit only cuts off**: a run that ends at an instruction after some steps is the same
under every limit that is not below their number, and cut off under every lower one; a run that
strays from the program needs one step more than it takes to be the same. A limit counts if it is
positive. -/
theorem limit_only_cuts (code : Listing) (entry printHelper readHelper : String) (s : State)
    {limit : ℤ} (hlimit : 0 < limit) {r : Run}
    (h : run (Options.ofParts entry printHelper readHelper limit) code s = r) :
    (r.Stopped → r.steps ≤ limit ∧
      (∀ k : ℤ, 0 < k → r.steps ≤ k →
        run (Options.ofParts entry printHelper readHelper k) code s = r) ∧
      ∀ k : ℤ, 0 < k → k < r.steps →
        (run (Options.ofParts entry printHelper readHelper k) code s).Cuts r k.toNat) ∧
    (r.Strayed → r.steps < limit ∧
      (∀ k : ℤ, 0 < k → r.steps < k →
        run (Options.ofParts entry printHelper readHelper k) code s = r) ∧
      ∀ k : ℤ, 0 < k → k ≤ r.steps →
        (run (Options.ofParts entry printHelper readHelper k) code s).Cuts r k.toNat) := by
  rw [ofParts_limited entry printHelper readHelper hlimit] at h
  obtain ⟨hstopped, hstrayed⟩ := run_limited h
  refine ⟨fun hr => ?_, fun hr => ?_⟩
  · obtain ⟨hle, hsame, hcut⟩ := hstopped hr
    refine ⟨by omega, fun k hk hle' => ?_, fun k hk hlt => ?_⟩
    · rw [ofParts_limited entry printHelper readHelper hk]
      exact hsame _ (by omega)
    · rw [ofParts_limited entry printHelper readHelper hk]
      exact hcut _ (by omega)
  · obtain ⟨hlt, hsame, hcut⟩ := hstrayed hr
    refine ⟨by omega, fun k hk hlt' => ?_, fun k hk hle => ?_⟩
    · rw [ofParts_limited entry printHelper readHelper hk]
      exact hsame _ (by omega)
    · rw [ofParts_limited entry printHelper readHelper hk]
      exact hcut _ (by omega)

/-- A text that prints zero and seven. -/
def printingTwice : String :=
  "main:\n    jal t0, printInt\n    li a0, 7\n    jal t0, printInt\n    ret\n"

/-- A run of a listing from its first state, with the names that are usual. -/
def firstRun (code : Listing) (limit : ℤ) : Run :=
  run (Options.ofParts "" "" "" limit) code (.initial code .absent {})

theorem printingTwice_cut : ∃ code, Listing.parse printingTwice = .ok code ∧
    (firstRun code 10).outcome = .ok ⟨7, true⟩ ∧ (firstRun code 10).steps = 4 ∧
    (∀ k : ℤ, 4 ≤ k → firstRun code k = firstRun code 10) ∧
      (firstRun code 3).Cuts (firstRun code 10) 3 := by
  have hparse : (Listing.parse printingTwice).toOption.map (fun code =>
      ((firstRun code 10).outcome, (firstRun code 10).steps)) = some (.ok ⟨7, true⟩, 4) := by
    decide +kernel
  cases hcode : Listing.parse printingTwice with
  | error e =>
    rw [hcode] at hparse
    cases hparse
  | ok code =>
    rw [hcode] at hparse
    obtain ⟨houtcome, hsteps⟩ := Prod.mk.inj (Option.some.inj hparse)
    obtain ⟨-, hsame, hcut⟩ := (limit_only_cuts code "" "" "" (.initial code .absent {})
      (by decide : (0 : ℤ) < 10) rfl).1 (.inl ⟨_, houtcome⟩)
    refine ⟨code, rfl, houtcome, hsteps, fun k hk => hsame k (by omega) ?_, hcut 3 (by decide) ?_⟩
    · show ((firstRun code 10).steps : ℤ) ≤ k
      omega
    · show 3 < ((firstRun code 10).steps : ℤ)
      omega

end RvBackend.Machine
