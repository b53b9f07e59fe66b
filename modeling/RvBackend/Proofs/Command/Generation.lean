import RvBackend.Command.Session
import RvBackend.Proofs.Command.Surroundings

/-! # What a failed generation leaves of the files

`gen` loads a program, opens its output file, and only then makes the code. Where it fails decides
what is left. A program that cannot be loaded and an output that cannot be opened leave all files as
they were. A program without code costs the output file: it was emptied when it was opened, and is
removed as far as that can be done. All this holds in any lawful surroundings.

* `Sparing`: actions that change no file, with the errors they can end in. Loading and making code
  are such actions.
* `compile_failed`: the ways in which writing the code of a program to a file fails.
* `failed_generation_costs_output`: the files after a failed generation. -/

namespace RvBackend.Command

variable {α β σ : Type}

/-! ### Actions in surroundings -/

/-- What an action gives in a state of the surroundings, and what it makes of the state. -/
def runIn (act : Action (StateM σ) α) (w : σ) : Except CommandError α × σ := act.run w

section Run

variable {x : Action (StateM σ) α} {f : α → Action (StateM σ) β} {w w' : σ} {e : CommandError}

theorem runIn_bind_of_ok {a : α} (h : runIn x w = (.ok a, w')) :
    runIn (x >>= f) w = runIn (f a) w' := by
  unfold runIn at h ⊢
  rw [ExceptT.run_bind]
  simp only [bind, StateT.bind, h]

theorem runIn_bind_of_error (h : runIn x w = (.error e, w')) :
    runIn (x >>= f) w = (.error e, w') := by
  unfold runIn at h ⊢
  rw [ExceptT.run_bind]
  simp only [bind, StateT.bind, h]
  rfl

theorem runIn_tryCatch_of_ok {a : α} {handle : CommandError → Action (StateM σ) α}
    (h : runIn x w = (.ok a, w')) : runIn (tryCatch x handle) w = (.ok a, w') := by
  unfold runIn at h ⊢
  rw [ExceptT.run_tryCatch]
  simp only [bind, StateT.bind, h]
  rfl

theorem runIn_tryCatch_of_error {handle : CommandError → Action (StateM σ) α}
    (h : runIn x w = (.error e, w')) : runIn (tryCatch x handle) w = runIn (handle e) w' := by
  unfold runIn at h ⊢
  rw [ExceptT.run_tryCatch]
  simp only [bind, StateT.bind, h]

/-- An action of two steps fails in the first one or in the second. -/
theorem runIn_bind_eq_error (h : runIn (x >>= f) w = (.error e, w')) :
    runIn x w = (.error e, w') ∨
      ∃ a u, runIn x w = (.ok a, u) ∧ runIn (f a) u = (.error e, w') := by
  rcases hx : runIn x w with ⟨r, u⟩
  cases r with
  | error e' =>
    rw [runIn_bind_of_error hx] at h
    cases h
    exact .inl rfl
  | ok a =>
    rw [runIn_bind_of_ok hx] at h
    exact .inr ⟨a, u, rfl, h⟩

/-- What the surroundings do never fails as an action. -/
theorem runIn_lift {act : StateM σ α} {a : α} (h : act.run w = (a, w')) :
    runIn (ExceptT.lift act) w = (.ok a, w') := by
  show (act.run w).map Except.ok id = _
  rw [h]
  rfl

/-- If it does not succeed, the error is given its cause. -/
theorem runIn_attempt_eq_error {ε : Type} {act : StateM σ (Except ε Unit)}
    {cause : ε → CommandError} {rest : Action (StateM σ) β}
    (h : runIn (do orFail cause (← ExceptT.lift act); rest) w = (.error e, w')) :
    (∃ fault, act.run w = (.error fault, w') ∧ e = cause fault) ∨
      ∃ u, act.run w = (.ok (), u) ∧ runIn rest u = (.error e, w') := by
  rcases hact : act.run w with ⟨r, u⟩
  rw [runIn_bind_of_ok (runIn_lift hact)] at h
  cases r with
  | error fault =>
    cases h
    exact .inl ⟨fault, rfl, rfl⟩
  | ok _ => exact .inr ⟨u, rfl, h⟩

end Run

/-- An action that changes no file, whatever comes of it, and ends in no errors but these. -/
def Sparing (v : FileView σ) (act : Action (StateM σ) α) (errors : CommandError → Prop) : Prop :=
  ∀ w r w', runIn act w = (r, w') → v.Same w w' ∧ ∀ e, r = .error e → errors e

namespace Sparing

variable {v : FileView σ} {errors : CommandError → Prop}

theorem pure (a : α) : Sparing v (Pure.pure a) errors := by
  intro w r w' h
  cases h
  refine ⟨.refl w, ?_⟩
  rintro _ ⟨⟩

theorem bind {x : Action (StateM σ) α} {f : α → Action (StateM σ) β} (hx : Sparing v x errors)
    (hf : ∀ a, Sparing v (f a) errors) : Sparing v (x >>= f) errors := by
  intro w r w' h
  rcases hfirst : runIn x w with ⟨first, u⟩
  obtain ⟨hsame, herrors⟩ := hx w first u hfirst
  cases first with
  | error e =>
    rw [runIn_bind_of_error hfirst] at h
    cases h
    refine ⟨hsame, ?_⟩
    rintro _ ⟨⟩
    exact herrors e rfl
  | ok a =>
    rw [runIn_bind_of_ok hfirst] at h
    obtain ⟨hrest, herrors⟩ := hf a u r w' h
    exact ⟨hsame.trans hrest, herrors⟩

theorem mono {x : Action (StateM σ) α} {errors' : CommandError → Prop} (hx : Sparing v x errors)
    (h : ∀ e, errors e → errors' e) : Sparing v x errors' := by
  intro w r w' hr
  obtain ⟨hsame, herrors⟩ := hx w r w' hr
  exact ⟨hsame, fun e he => h e (herrors e he)⟩

theorem orFail {ε : Type} {cause : ε → CommandError} (h : ∀ e, errors (cause e))
    (result : Except ε α) : Sparing v (Command.orFail cause result) errors := by
  intro w r w' hr
  cases result with
  | ok a =>
    cases hr
    refine ⟨.refl w, ?_⟩
    rintro _ ⟨⟩
  | error fault =>
    cases hr
    refine ⟨.refl w, ?_⟩
    rintro _ ⟨⟩
    exact h fault

theorem lift {act : StateM σ α} (h : ∀ w, v.Same w (act.run w).2) :
    Sparing v (ExceptT.lift act) errors := by
  intro w r w' hr
  rcases hact : act.run w with ⟨a, u⟩
  have hsame := h w
  rw [hact] at hsame
  rw [runIn_lift hact] at hr
  cases hr
  refine ⟨hsame, ?_⟩
  rintro _ ⟨⟩

variable [Host (StateM σ)] (hv : v.Lawful)
include hv

theorem readFile (path : String) : Sparing v (Host.readFile path) errors :=
  lift (hv.readFile path)

theorem print (text : String) : Sparing v (Host.print text) errors :=
  lift (hv.print text)

theorem log (s : Session) (records : List LogRecord) : Sparing v (s.log records) errors :=
  lift (hv.printError (logText s.logLevel records))

end Sparing

/-! ### Loading and making code -/

/-- Whether an error says that a program cannot be loaded. -/
def CommandError.isLoading : CommandError → Bool
  | .sourceFile _ | .sourceText _ _ | .source _ _ => true
  | _ => false

/-- Whether an error says that the output cannot be opened. -/
def CommandError.isOpening : CommandError → Bool
  | .outputFile _ _ => true
  | _ => false

/-- Whether an error says that a program has no code. -/
def CommandError.isMaking : CommandError → Bool
  | .code _ => true
  | _ => false

/-- Whether an error says that the output cannot be written to. -/
def CommandError.isWriting : CommandError → Bool
  | .outputText _ _ => true
  | _ => false

theorem isLoading_ofSource (path : String) (e : FileError) :
    (CommandError.ofSource path e).isLoading = true := by
  unfold CommandError.ofSource
  split_ifs <;> rfl

section Lawful

variable [Host (StateM σ)] {v : FileView σ} (hv : v.Lawful) (s : Session)
include hv

theorem Session.sparing_load (source : String) :
    Sparing v (s.load source) (·.isLoading = true) := by
  refine .bind (.readFile hv source) fun found => ?_
  refine .bind (.orFail (isLoading_ofSource source) found) fun bytes => ?_
  refine .bind (.orFail (by intro _; rfl) (Program.decode bytes)) fun p => ?_
  exact .bind (.log hv s _) fun _ => .pure _

theorem Session.sparing_assembly (p : Program) :
    Sparing v (s.assembly p) (·.isMaking = true) := by
  refine .bind (.log hv s _) fun _ => ?_
  exact .bind (.orFail (by intro _; rfl) _) fun _ => .pure _

/-- Printing the assembly changes no file. -/
theorem Session.sparing_printAssembly (source : String) :
    Sparing v (s.printAssembly source) fun e => e.isLoading = true ∨ e.isMaking = true := by
  refine .bind ((s.sparing_load hv source).mono fun _ => .inl) fun p => ?_
  exact .bind ((s.sparing_assembly hv p).mono fun _ => .inr) fun text => .print hv text

/-! ### Writing the code to a file -/

variable {s} {w w' : σ} {path : String} {e : CommandError}

/-- Making code for a file changes no file before it fails, and then removes that file. -/
theorem assemblyFor_of_error {p : Program} (hreturned : e.isBreakdown = false)
    (h : runIn (s.assemblyFor path p) w = (.error e, w')) :
    e.isMaking = true ∧
      ∃ u, v.Same w u ∧ w' = ((Host.removeFile path : StateM σ Unit).run u).2 := by
  rcases hmade : runIn (s.assembly p) w with ⟨made, u⟩
  obtain ⟨hsame, hmaking⟩ := s.sparing_assembly hv p w made u hmade
  unfold Session.assemblyFor at h
  cases made with
  | ok text =>
    rw [runIn_tryCatch_of_ok hmade] at h
    cases h
  | error e' =>
    rw [runIn_tryCatch_of_error hmade] at h
    cases hbreak : e'.isBreakdown with
    | true =>
      simp only [hbreak, Bool.not_true, Bool.false_eq_true, if_false] at h
      cases h
      exact absurd hbreak (hreturned ▸ Bool.false_ne_true)
    | false =>
      simp only [hbreak, Bool.not_false, if_true] at h
      cases h
      exact ⟨hmaking e rfl, u, hsame, rfl⟩

/-- **How writing the code of a program to a file fails.** The program cannot be loaded; or the file
cannot be opened; or it is opened and the program has no code; or there is code, and it cannot be
written. -/
theorem compile_failed {source dir : String}
    (h : runIn (s.compile source dir) w = (.error e, w')) (hreturned : e.isBreakdown = false) :
    (e.isLoading = true ∧ v.Same w w') ∨ (e.isOpening = true ∧ v.Same w w') ∨
      (e.isMaking = true ∧ ∃ f, v.Spent (s.outputPath source dir) f w w') ∨
      e.isWriting = true := by
  unfold Session.compile at h
  obtain h | ⟨p, w₁, hload, h⟩ := runIn_bind_eq_error h
  · obtain ⟨hsame, hloading⟩ := s.sparing_load hv source w _ w' h
    exact .inl ⟨hloading e rfl, hsame⟩
  obtain ⟨hloaded, -⟩ := s.sparing_load hv source w _ w₁ hload
  obtain ⟨fault, hcreate, rfl⟩ | ⟨w₂, hcreate, h⟩ := runIn_attempt_eq_error h
  · exact .inr (.inl ⟨rfl, hloaded.trans (hv.createFile_error _ _ _ _ hcreate)⟩)
  obtain ⟨f, hopened⟩ := hv.createFile_ok _ _ _ hcreate
  obtain h | ⟨text, w₃, -, h⟩ := runIn_bind_eq_error h
  · obtain ⟨hmaking, u, hsame, rfl⟩ := assemblyFor_of_error hv hreturned h
    have hopened := hopened.between hloaded hsame
    exact .inr (.inr (.inl ⟨hmaking, f, hopened.spent (hv.removeFile _ _ _ hopened.leads)⟩))
  obtain ⟨fault, -, rfl⟩ | ⟨w₄, -, h⟩ := runIn_attempt_eq_error h
  · exact .inr (.inr (.inr rfl))
  · -- behind the writing there is only the log, and it does not fail
    have hlast : ∀ records, Sparing v (do s.log records; return s.outputPath source dir)
        fun _ => False := fun records => .bind (.log hv s records) fun _ => .pure _
    exact ((hlast _ w₄ _ w' h).2 e rfl).elim

/-! ### The files after a failed generation -/

/-- A generation that fails leaves the files alone, or has no code for the file that it opened, or
cannot write the code. -/
theorem generate_failed {source dir : String}
    (h : runIn (s.generate source dir) w = (.error e, w')) (hreturned : e.isBreakdown = false) :
    ((e.isLoading = true ∨ e.isOpening = true ∨ dir = Session.standardOutput) ∧ v.Same w w') ∨
      (e.isMaking = true ∧ dir ≠ Session.standardOutput ∧
        ∃ f, v.Spent (s.outputPath source dir) f w w') ∨
      (e.isWriting = true ∧ dir ≠ Session.standardOutput) := by
  unfold Session.generate at h
  by_cases hdir : dir = Session.standardOutput
  · rw [if_pos hdir] at h
    have hspare : Sparing v (do s.printAssembly source; return "")
        fun e => e.isLoading = true ∨ e.isMaking = true :=
      .bind (s.sparing_printAssembly hv source) fun _ => .pure _
    exact .inl ⟨.inr (.inr hdir), (hspare w _ w' h).1⟩
  · rw [if_neg hdir] at h
    obtain ⟨hloading, hsame⟩ | ⟨hopening, hsame⟩ | ⟨hmaking, hspent⟩ | hwriting :=
      compile_failed hv h hreturned
    · exact .inl ⟨.inl hloading, hsame⟩
    · exact .inl ⟨.inr (.inl hopening), hsame⟩
    · exact .inr (.inl ⟨hmaking, hdir, hspent⟩)
    · exact .inr (.inr ⟨hwriting, hdir⟩)

end Lawful

theorem not_isMaking {e : CommandError}
    (h : e.isLoading = true ∨ e.isOpening = true ∨ e.isWriting = true) : ¬ e.isMaking = true := by
  cases e <;> simp_all [CommandError.isLoading, CommandError.isOpening, CommandError.isWriting,
    CommandError.isMaking]

theorem not_isWriting {e : CommandError} (h : e.isLoading = true ∨ e.isOpening = true) :
    ¬ e.isWriting = true := by
  cases e <;> simp_all [CommandError.isLoading, CommandError.isOpening, CommandError.isWriting]

/-- **A failed generation** (one that reports its error) leaves all files as they were if the
program cannot be loaded, if the output cannot be opened, or if there is no output file. If a
program has no code, then the file that the path of the output led to, or that was made there, was
emptied and then removed by this path, as far as the surroundings let it be removed; all other files
are as they were. So every file is left alone exactly if paths lead to the same files afterwards and
the output, if there was one, was empty. -/
theorem failed_generation_costs_output [Host (StateM σ)] {v : FileView σ} (hv : v.Lawful)
    {s : Session} {source dir : String} {w w' : σ} {e : CommandError}
    (h : runIn (s.generate source dir) w = (.error e, w')) (hreturned : e.isBreakdown = false) :
    (e.isLoading = true ∨ e.isOpening = true ∨ dir = Session.standardOutput → v.Same w w') ∧
      (e.isMaking = true → dir ≠ Session.standardOutput →
        ∃ f, v.Spent (s.outputPath source dir) f w w' ∧
          ((∀ p, v.contentAt? w' p = v.contentAt? w p) ↔
            (∀ p, v.fileAt? w' p = v.fileAt? w p) ∧
              (v.fileAt? w (s.outputPath source dir) = some f → v.bytes w f = []))) := by
  obtain ⟨hkind, hsame⟩ | ⟨hmaking, hdir, f, hspent⟩ | ⟨hwriting, hdir⟩ :=
    generate_failed hv h hreturned
  · refine ⟨fun _ => hsame, fun hmaking hdir => ?_⟩
    obtain hloading | hopening | hout := hkind
    · exact absurd hmaking (not_isMaking (.inl hloading))
    · exact absurd hmaking (not_isMaking (.inr (.inl hopening)))
    · exact absurd hout hdir
  · refine ⟨?_, fun _ _ => ⟨f, hspent, hspent.contentAt?_iff⟩⟩
    rintro (hloading | hopening | hout)
    · exact absurd hmaking (not_isMaking (.inl hloading))
    · exact absurd hmaking (not_isMaking (.inr (.inl hopening)))
    · exact absurd hout hdir
  · refine ⟨?_, fun hmaking => absurd hmaking (not_isMaking (.inr (.inr hwriting)))⟩
    rintro (hloading | hopening | hout)
    · exact absurd hwriting (not_isWriting (.inl hloading))
    · exact absurd hwriting (not_isWriting (.inr hopening))
    · exact absurd hout hdir

/-! ### A program that is refused -/

/-- Whether an action reports an error of some kind. -/
def reports (kind : CommandError → Bool) : Except CommandError α → Bool
  | .ok _ => false
  | .error e => kind e && !e.isBreakdown

theorem exists_of_reports {kind : CommandError → Bool} {act : Action (StateM σ) α} {w : σ}
    (h : reports kind (runIn act w).1 = true) :
    ∃ e w', runIn act w = (.error e, w') ∧ kind e = true ∧ e.isBreakdown = false := by
  rcases hrun : runIn act w with ⟨r, w'⟩
  rw [hrun] at h
  cases r with
  | ok a => cases h
  | error e =>
    obtain ⟨hkind, hreturned⟩ := Bool.and_eq_true_iff.mp h
    exact ⟨e, w', rfl, hkind, by simpa using hreturned⟩

/-- A program whose only function is named like a register. -/
def refusedSource : String :=
  "\x7b\"kind\":\"Program\",\"functions\":[\x7b\"kind\":\"Function\",\"name\":\"ra\"\x7d]\x7d"

/-- A world with that program, and with the assembly of an earlier one in the directory `out`. -/
def refusedWorld : World where
  files := (({} : Files).add "a.json" (Text.utf8 refusedSource)).add "out/a.S" (Text.utf8 "old")

/-- A program that is not there leaves all files as they were; one without code costs the output of
an earlier one, whose place is empty then. -/
theorem refused_generation_costs_output :
    World.view.Lawful ∧
      (∃ e w', runIn (Session.generate {} "b.json" "out") refusedWorld = (.error e, w') ∧
        e.isLoading = true ∧ World.view.Same refusedWorld w') ∧
      ∃ e w', runIn (Session.generate {} "a.json" "out") refusedWorld = (.error e, w') ∧
        e.isMaking = true ∧ ∃ f, World.view.Spent "out/a.S" f refusedWorld w' ∧
          World.view.fileAt? refusedWorld "out/a.S" = some f ∧
          World.view.contentAt? w' "out/a.S" = none ∧
          ¬ ∀ p, World.view.contentAt? w' p = World.view.contentAt? refusedWorld p := by
  refine ⟨World.lawful_view, ?_, ?_⟩
  · obtain ⟨e, w', hrun, hloading, hreturned⟩ := exists_of_reports
      (show reports CommandError.isLoading
        (runIn (Session.generate {} "b.json" "out") refusedWorld).1 = true by decide +kernel)
    exact ⟨e, w', hrun, hloading,
      (failed_generation_costs_output World.lawful_view hrun hreturned).1 (.inl hloading)⟩
  · obtain ⟨e, w', hrun, hmaking, hreturned⟩ := exists_of_reports
      (show reports CommandError.isMaking
        (runIn (Session.generate {} "a.json" "out") refusedWorld).1 = true by decide +kernel)
    have hpath : Session.outputPath {} "a.json" "out" = "out/a.S" := by decide +kernel
    have hold : refusedWorld.files.fileAt? "out/a.S" = some ["out", "a.S"] := by decide +kernel
    have hgone : World.view.contentAt?
        (runIn (Session.generate {} "a.json" "out") refusedWorld).2 "out/a.S" = none := by
      decide +kernel
    rw [hrun] at hgone
    obtain ⟨f, hspent, hiff⟩ :=
      (failed_generation_costs_output World.lawful_view hrun hreturned).2 hmaking (by decide)
    rw [hpath] at hspent hiff
    have hleads : World.view.fileAt? refusedWorld "out/a.S" = some f :=
      hspent.origin.resolve_right fun hnone => by cases hold.symm.trans hnone.1
    refine ⟨e, w', hrun, hmaking, f, hspent, hleads, hgone, fun hall => ?_⟩
    rw [FileView.contentAt?, (hiff.mp hall).1, hleads] at hgone
    cases hgone

/-- A program without code costs the output of an earlier one, so a failed generation does not leave
every file alone. -/
theorem earlier_output_lost :
    ∃ e w', runIn (Session.generate {} "a.json" "out") refusedWorld = (.error e, w') ∧
      e.isMaking = true ∧ e.isBreakdown = false ∧
      refusedWorld.files.at? ["out", "a.S"] = some (.file (Text.utf8 "old")) ∧
      w'.files.at? ["out", "a.S"] = none := by
  obtain ⟨e, w', hrun, hmaking, hreturned⟩ := exists_of_reports
    (show reports CommandError.isMaking
      (runIn (Session.generate {} "a.json" "out") refusedWorld).1 = true by decide +kernel)
  have hgone : (runIn (Session.generate {} "a.json" "out") refusedWorld).2.files.at?
      ["out", "a.S"] = none := by
    decide +kernel
  rw [hrun] at hgone
  exact ⟨e, w', hrun, hmaking, hreturned, by decide +kernel, hgone⟩

end RvBackend.Command
