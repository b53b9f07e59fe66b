import Mathlib.Tactic

/-! # What steps come to

`outcome x p` is what the steps `x` come to when they are begun with the state `p`, and `Made x p a
q` says that they make `a` and leave the state `q`. The lemmas take a sequence of steps apart, so
that later proofs look at one step at a time and never at how the state is passed on.

* `outcome_bind`, `made_bind_iff`: a sequence is its first step followed by the rest.
* `Succeeds`: the steps make something, whatever it is.
* `OnlyFails`: if the steps fail, then for a reason of some kind.
* `ok_bind_iff`, `exists_ok_bind_iff`: the same for steps without a state.
* `exists_ok_of_any`: what an evaluation finds out about a result. -/

namespace RvBackend

variable {ε α β σ : Type} {p q r : σ}

/-- What steps come to when they are begun with some state. -/
def outcome (x : ExceptT ε (StateM σ) α) (p : σ) : Except ε α × σ :=
  ExceptT.run x p

/-- Begun with `p`, the steps `x` make `a` and leave `q`. -/
def Made (x : ExceptT ε (StateM σ) α) (p : σ) (a : α) (q : σ) : Prop :=
  outcome x p = (.ok a, q)

/-! ### Sequences of steps -/

theorem made_pure_iff {a b : α} :
    Made (pure a : ExceptT ε (StateM σ) α) p b q ↔ a = b ∧ p = q := by
  show ((Except.ok a, p) : Except ε α × σ) = (.ok b, q) ↔ _
  simp

theorem outcome_bind (x : ExceptT ε (StateM σ) α) (f : α → ExceptT ε (StateM σ) β) :
    outcome (x >>= f) p =
      match outcome x p with
      | (.ok a, q) => outcome (f a) q
      | (.error e, q) => (.error e, q) := by
  show (ExceptT.bindCont f (outcome x p).1 (outcome x p).2 : Except ε β × σ) = _
  rcases outcome x p with ⟨e | a, q⟩ <;> rfl

theorem made_bind_iff {x : ExceptT ε (StateM σ) α} {f : α → ExceptT ε (StateM σ) β}
    {b : β} : Made (x >>= f) p b r ↔ ∃ a q, Made x p a q ∧ Made (f a) q b r := by
  unfold Made
  rw [outcome_bind]
  rcases outcome x p with ⟨e | a, q⟩
  · simp
  · constructor
    · exact fun h => ⟨a, q, rfl, h⟩
    · rintro ⟨a', q', h, h'⟩
      cases h
      exact h'

/-- To make something in a sequence, make it behind whatever the first step makes. -/
theorem exists_made_bind {x : ExceptT ε (StateM σ) α} {f : α → ExceptT ε (StateM σ) β}
    {P : α → σ → Prop} {R : β → σ → Prop} (h : ∃ a q, Made x p a q ∧ P a q)
    (h' : ∀ a q, P a q → ∃ b r, Made (f a) q b r ∧ R b r) :
    ∃ b r, Made (x >>= f) p b r ∧ R b r := by
  obtain ⟨a, q, hx, hP⟩ := h
  obtain ⟨b, r, hf, hR⟩ := h' a q hP
  exact ⟨b, r, made_bind_iff.mpr ⟨a, q, hx, hf⟩, hR⟩

theorem not_made_throw {e : ε} {a : α} : ¬ Made (throw e : ExceptT ε (StateM σ) α) p a q := by
  intro h
  have : ((Except.error e, p) : Except ε α × σ) = (.ok a, q) := h
  simp at this

theorem made_lift_iff {x : Except ε α} {a : α} :
    Made (liftM x : ExceptT ε (StateM σ) α) p a q ↔ x = .ok a ∧ p = q := by
  show ((x, p) : Except ε α × σ) = (.ok a, q) ↔ _
  simp

theorem made_modify_iff {f : σ → σ} {u : Unit} :
    Made (modify f : ExceptT ε (StateM σ) Unit) p u q ↔ q = f p := by
  show ((Except.ok (), f p) : Except ε Unit × σ) = (.ok u, q) ↔ _
  simp [eq_comm]

theorem made_modifyGet_iff {f : σ → α × σ} {a : α} :
    Made (modifyGet f : ExceptT ε (StateM σ) α) p a q ↔ f p = (a, q) := by
  show ((Except.ok (f p).1, (f p).2) : Except ε α × σ) = (.ok a, q) ↔ _
  rw [Prod.ext_iff, Prod.ext_iff]
  simp

theorem made_get_iff {a : σ} :
    Made (get : ExceptT ε (StateM σ) σ) p a q ↔ a = p ∧ q = p := by
  show ((Except.ok p, p) : Except ε σ × σ) = (.ok a, q) ↔ _
  simp [eq_comm]

theorem exists_made_lift {x : Except ε α} {a : α} (h : x = .ok a) (p : σ) :
    ∃ b q, Made (liftM x : ExceptT ε (StateM σ) α) p b q ∧ b = a ∧ q = p :=
  ⟨a, p, made_lift_iff.mpr ⟨h, rfl⟩, rfl, rfl⟩

theorem exists_made_get (p : σ) :
    ∃ b q, Made (get : ExceptT ε (StateM σ) σ) p b q ∧ b = p ∧ q = p :=
  ⟨p, p, made_get_iff.mpr ⟨rfl, rfl⟩, rfl, rfl⟩

/-! ### Steps that do not fail -/

/-- Begun with `p`, the steps `x` make something. -/
def Succeeds (x : ExceptT ε (StateM σ) α) (p : σ) : Prop := ∃ a q, Made x p a q

theorem succeeds_pure (a : α) : Succeeds (pure a : ExceptT ε (StateM σ) α) p :=
  ⟨a, p, made_pure_iff.mpr ⟨rfl, rfl⟩⟩

theorem succeeds_lift_iff {x : Except ε α} :
    Succeeds (liftM x : ExceptT ε (StateM σ) α) p ↔ ∃ a, x = .ok a := by
  constructor
  · rintro ⟨a, q, h⟩
    exact ⟨a, (made_lift_iff.mp h).1⟩
  · rintro ⟨a, h⟩
    exact ⟨a, p, made_lift_iff.mpr ⟨h, rfl⟩⟩

/-- A sequence succeeds if its first step does, and then the rest. -/
theorem Succeeds.bind_iff {x : ExceptT ε (StateM σ) α} {f : α → ExceptT ε (StateM σ) β} {P Q : Prop}
    (hx : Succeeds x p ↔ P) (hf : ∀ a q, Made x p a q → (Succeeds (f a) q ↔ Q)) :
    Succeeds (x >>= f) p ↔ P ∧ Q := by
  rw [← hx]
  constructor
  · rintro ⟨b, r, h⟩
    obtain ⟨a, q, ha, hb⟩ := made_bind_iff.mp h
    exact ⟨⟨a, q, ha⟩, (hf a q ha).mp ⟨b, r, hb⟩⟩
  · rintro ⟨⟨a, q, ha⟩, hQ⟩
    obtain ⟨b, r, hb⟩ := (hf a q ha).mpr hQ
    exact ⟨b, r, made_bind_iff.mpr ⟨a, q, ha, hb⟩⟩

/-- A first step that always succeeds is of no account. -/
theorem Succeeds.bind_iff_right {x : ExceptT ε (StateM σ) α} {f : α → ExceptT ε (StateM σ) β}
    {Q : Prop} (hx : Succeeds x p) (hf : ∀ a q, Made x p a q → (Succeeds (f a) q ↔ Q)) :
    Succeeds (x >>= f) p ↔ Q :=
  (Succeeds.bind_iff (iff_true_intro hx) hf).trans (iff_of_eq (true_and Q))

/-- A last step that always succeeds is of no account. -/
theorem Succeeds.bind_iff_left {x : ExceptT ε (StateM σ) α} {f : α → ExceptT ε (StateM σ) β}
    (hf : ∀ a q, Made x p a q → Succeeds (f a) q) : Succeeds (x >>= f) p ↔ Succeeds x p :=
  (Succeeds.bind_iff Iff.rfl fun a q ha => iff_true_intro (hf a q ha)).trans
    (iff_of_eq (and_true _))

/-- The same steps for each of some values succeed if they do for each one. -/
theorem succeeds_mapM_iff {f : α → ExceptT ε (StateM σ) β} {P : α → Prop} : ∀ {xs : List α} {p : σ},
    (∀ x ∈ xs, ∀ q, Succeeds (f x) q ↔ P x) → (Succeeds (xs.mapM f) p ↔ ∀ x ∈ xs, P x)
  | [], p, _ => by
    rw [List.mapM_nil]
    simp [succeeds_pure]
  | x :: xs, p, h => by
    rw [List.mapM_cons, List.forall_mem_cons]
    rw [List.forall_mem_cons] at h
    refine Succeeds.bind_iff (h.1 p) fun y q _ => ?_
    exact (Succeeds.bind_iff_left fun _ _ _ => succeeds_pure _).trans (succeeds_mapM_iff h.2)

/-! ### Reasons of failures -/

/-- Whatever state they are begun with, the steps `x` fail only for reasons with the property
`P`. -/
def OnlyFails (P : ε → Prop) (x : ExceptT ε (StateM σ) α) : Prop :=
  ∀ p e, (outcome x p).1 = .error e → P e

section

variable {P : ε → Prop}

theorem onlyFails_of_ok {x : ExceptT ε (StateM σ) α} (h : ∀ p, ∃ a, (outcome x p).1 = .ok a) :
    OnlyFails P x := by
  intro p e he
  obtain ⟨a, ha⟩ := h p
  rw [ha] at he
  cases he

theorem onlyFails_pure (a : α) : OnlyFails P (pure a : ExceptT ε (StateM σ) α) :=
  onlyFails_of_ok fun _ => ⟨a, rfl⟩

theorem onlyFails_get : OnlyFails P (get : ExceptT ε (StateM σ) σ) :=
  onlyFails_of_ok fun p => ⟨p, rfl⟩

theorem onlyFails_modify (f : σ → σ) : OnlyFails P (modify f : ExceptT ε (StateM σ) Unit) :=
  onlyFails_of_ok fun _ => ⟨(), rfl⟩

theorem onlyFails_modifyGet (f : σ → α × σ) : OnlyFails P (modifyGet f : ExceptT ε (StateM σ) α) :=
  onlyFails_of_ok fun p => ⟨(f p).1, rfl⟩

theorem onlyFails_lift {x : Except ε α} (h : ∀ e, x = .error e → P e) :
    OnlyFails P (liftM x : ExceptT ε (StateM σ) α) :=
  fun _ e he => h e he

/-- Steps that fail at once, whatever stands behind. -/
theorem onlyFails_throw_bind {e : ε} {f : α → ExceptT ε (StateM σ) β} (h : P e) :
    OnlyFails P ((throw e : ExceptT ε (StateM σ) α) >>= f) := by
  intro p e' he
  obtain rfl : e = e' := Except.error.inj he
  exact h

theorem OnlyFails.bind {x : ExceptT ε (StateM σ) α} {f : α → ExceptT ε (StateM σ) β}
    (hx : OnlyFails P x) (hf : ∀ a, OnlyFails P (f a)) : OnlyFails P (x >>= f) := by
  intro p e he
  rw [outcome_bind] at he
  rcases houtcome : outcome x p with ⟨e' | a, q⟩
  · rw [houtcome] at he
    obtain rfl : e' = e := Except.error.inj he
    exact hx p e' (by rw [houtcome])
  · rw [houtcome] at he
    exact hf a q e he

theorem onlyFails_mapM {f : α → ExceptT ε (StateM σ) β} :
    ∀ {xs : List α}, (∀ x ∈ xs, OnlyFails P (f x)) →
    OnlyFails P (xs.mapM f)
  | [], _ => by
    rw [List.mapM_nil]
    exact onlyFails_pure _
  | x :: xs, h => by
    rw [List.forall_mem_cons] at h
    rw [List.mapM_cons]
    exact h.1.bind fun _ => (onlyFails_mapM h.2).bind fun _ => onlyFails_pure _

end

/-! ### Results -/

theorem ok_bind_iff {x : Except ε α} {f : α → Except ε β} {b : β} :
    x >>= f = .ok b ↔ ∃ a, x = .ok a ∧ f a = .ok b := by
  cases x with
  | error e => simp [bind, Except.bind]
  | ok a => simp [bind, Except.bind]

theorem ok_pure_iff {a b : α} : (pure a : Except ε α) = .ok b ↔ a = b := by
  show (Except.ok a : Except ε α) = .ok b ↔ a = b
  simp

theorem ok_throw_iff {e : ε} {a : α} : (throw e : Except ε α) = .ok a ↔ False := by
  show (Except.error e : Except ε α) = .ok a ↔ False
  simp

theorem exists_ok_bind_iff {x : Except ε α} {f : α → Except ε β} {P Q : Prop}
    (hx : (∃ a, x = .ok a) ↔ P) (hf : ∀ a, x = .ok a → ((∃ b, f a = .ok b) ↔ Q)) :
    (∃ b, x >>= f = .ok b) ↔ P ∧ Q := by
  simp only [ok_bind_iff]
  rw [← hx]
  constructor
  · rintro ⟨b, a, ha, hb⟩
    exact ⟨⟨a, ha⟩, (hf a ha).mp ⟨b, hb⟩⟩
  · rintro ⟨⟨a, ha⟩, hQ⟩
    obtain ⟨b, hb⟩ := (hf a ha).mpr hQ
    exact ⟨b, a, ha, hb⟩

theorem exists_ok_map_iff {x : Except ε α} {g : α → β} :
    (∃ b, (do return g (← x)) = Except.ok b) ↔ ∃ a, x = .ok a :=
  (exists_ok_bind_iff Iff.rfl fun _ _ => iff_true_intro ⟨_, rfl⟩).trans (iff_of_eq (and_true _))

/-! ### Results that are evaluated -/

/-- If an evaluation finds a result that passes a test, then there is such a result. -/
theorem exists_ok_of_any {x : Except ε α} {test : α → Bool} (h : x.toOption.any test = true) :
    ∃ a, x = .ok a ∧ test a = true := by
  cases x with
  | error e => cases h
  | ok a => exact ⟨a, rfl, h⟩

theorem exists_ok_of_isOk {x : Except ε α} (h : x.isOk = true) : ∃ a, x = .ok a := by
  cases x with
  | error e => cases h
  | ok a => exact ⟨a, rfl⟩

end RvBackend
