import RvBackend.Proofs.Meaning.Evaluator

/-! # Evaluation with guesses

What a program determines does not depend on guesses, and where it leaves something open, an
evaluation can come to what any suitable guesses make of it.

* `Can x w r w'`: with suitable guesses, `x` begun in `w` comes to `r` and leaves `w'`.
* `Steady x`: what `x` comes to without guesses, it comes to with any guesses.
* `steady_program`: programs are steady. -/

namespace RvBackend.Meaning

variable {α β : Type} {x : Evaluation α} {f : α → Evaluation β} {w w' w'' : World}

/-- The world with other guesses. -/
def World.guessing (w : World) (guesses : List Int32) : World := { w with guesses }

/-- With suitable guesses, `x` begun in `w` comes to `r` and leaves `w'`; the guesses of the worlds
themselves do not matter. -/
def Can (x : Evaluation α) (w : World) (r : Except Stop α) (w' : World) : Prop :=
  ∃ gs, ∀ rest, outcome x (w.guessing (gs ++ rest)) = (r, w'.guessing rest)

/-! ### Reaching a result -/

theorem can_of_outcome {r : Except Stop α}
    (h : ∀ gs, outcome x (w.guessing gs) = (r, w'.guessing gs)) :
    Can x w r w' := ⟨[], h⟩

theorem can_pure (a : α) (w : World) : Can (pure a) w (.ok a) w := can_of_outcome fun _ => rfl

theorem can_throw (e : Stop) (w : World) : Can (throw e : Evaluation α) w (.error e) w :=
  can_of_outcome fun _ => rfl

theorem can_guess (v : Int32) (w : World) : Can guess w (.ok v) w := ⟨[v], fun _ => rfl⟩

theorem Can.bind {a : α} {r : Except Stop β} (h : Can x w (.ok a) w') (h' : Can (f a) w' r w'') :
    Can (x >>= f) w r w'' := by
  obtain ⟨gs, hgs⟩ := h
  obtain ⟨gs', hgs'⟩ := h'
  refine ⟨gs ++ gs', fun rest => ?_⟩
  rw [outcome_bind, List.append_assoc, hgs]
  exact hgs' rest

theorem Can.bind_error {e : Stop} (h : Can x w (.error e) w') : Can (x >>= f) w (.error e) w' := by
  obtain ⟨gs, hgs⟩ := h
  refine ⟨gs, fun rest => ?_⟩
  rw [outcome_bind, hgs]

theorem Can.get {f : World → Evaluation β} {r : Except Stop β} (h : Can (f w) w r w')
    (hf : ∀ gs, f (w.guessing gs) = f w) : Can (get >>= f) w r w' := by
  obtain ⟨gs, hgs⟩ := h
  refine ⟨gs, fun rest => ?_⟩
  show outcome (f (w.guessing (gs ++ rest))) (w.guessing (gs ++ rest)) = _
  rw [hf, hgs]

theorem can_modify {g : World → World} (hg : ∀ w gs, g (w.guessing gs) = (g w).guessing gs)
    (w : World) :
    Can (modify g : Evaluation PUnit) w (.ok ()) (g w) :=
  can_of_outcome fun gs => congrArg (Prod.mk (Except.ok ())) (hg w gs)

theorem can_determined {o : Option Int32} {v : Int32} (h : o = some v) (w : World) :
    Can (determined o) w (.ok v) w := by
  subst h
  exact can_pure v w

theorem outcome_readVariable (name : String) (w : World) (gs : List Int32) :
    outcome (readVariable name) (w.guessing gs) =
      match w.locals.lookup name with
      | some (some u) => (.ok u, w.guessing gs)
      | some none => outcome guess (w.guessing gs)
      | none => outcome (determined (w.globals.lookup name)) (w.guessing gs) := by
  show outcome (match w.locals.lookup name with
    | some (some u) => pure u
    | some none => guess
    | none => determined (w.globals.lookup name)) (w.guessing gs) = _
  split <;> rfl

theorem can_readVariable {name : String} {cell : Option Int32} {v : Int32}
    (h : w.locals.lookup name = some cell) (hv : ∀ u ∈ cell, u = v) :
    Can (readVariable name) w (.ok v) w := by
  cases cell with
  | some u =>
    refine can_of_outcome fun gs => ?_
    rw [outcome_readVariable, h, ← hv u rfl]
  | none =>
    refine ⟨[v], fun rest => ?_⟩
    rw [outcome_readVariable, h]
    rfl

theorem can_readVariable_global {name : String} {v : Int32} (h : w.locals.lookup name = none)
    (hv : w.globals.lookup name = some v) : Can (readVariable name) w (.ok v) w := by
  refine can_of_outcome fun gs => ?_
  rw [outcome_readVariable, h, hv]
  rfl

theorem write_guessing (w : World) (name : String) (v : Int32) (gs : List Int32) :
    (w.guessing gs).write name v = (w.write name v).guessing gs := by
  unfold World.write
  show (if (w.locals.lookup name).isSome = true then _ else _) = _
  split <;> rfl

theorem can_writeVariable (name : String) (v : Int32) (w : World) :
    Can (writeVariable name v) w (.ok ()) (w.write name v) :=
  can_modify (fun w gs => write_guessing w name v gs) w

theorem can_printInteger {v : Int32} {output : Sink} {fits : Bool}
    (h : w.output.write (Text.decimal v.toInt ++ "\n") = (output, fits)) :
    Can (printInteger v) w (if fits then .ok () else .error .outputFull) { w with output } := by
  refine Can.get ?_ fun _ => rfl
  rw [h]
  refine Can.bind (can_modify (fun _ _ => rfl) w) ?_
  cases fits with
  | false => exact can_throw _ _
  | true => exact can_pure _ _

theorem can_readInteger {read : Except Machine.InputFault Int32} {input : Machine.Input}
    (h : w.input.nextInteger = (read, input)) :
    Can readInteger w (read.mapError .input) { w with input } := by
  refine Can.get ?_ fun _ => rfl
  rw [h]
  refine Can.bind (can_modify (fun _ _ => rfl) w) ?_
  cases read with
  | error fault => exact can_throw _ _
  | ok v => exact can_pure _ _

/-! ### What is determined -/

/-- What `x` comes to without guesses, it comes to with any guesses, and it takes none of them. -/
def Steady (x : Evaluation α) : Prop :=
  ∀ (w : World) (r : Except Stop α) (w' : World), outcome x (w.guessing []) = (r, w') →
    r ≠ .error .undefined →
    w'.guesses = [] ∧ ∀ gs, outcome x (w.guessing gs) = (r, w'.guessing gs)

/-- With guesses or without them, a steady evaluation comes to the same. -/
theorem Steady.eq_of_can (hx : Steady x) {r r' : Except Stop α} (hcan : Can x w r' w')
    (h : outcome x (w.guessing []) = (r, w'')) (hr : r ≠ .error .undefined) :
    r' = r ∧ w'.guessing [] = w'' := by
  obtain ⟨hnone, hall⟩ := hx w r w'' h hr
  obtain ⟨gs, hgs⟩ := hcan
  have hsame := (hgs []).symm.trans (hall (gs ++ []))
  rw [Prod.mk.injEq] at hsame
  obtain ⟨hr', hw⟩ := hsame
  refine ⟨hr', ?_⟩
  have hw' : (w'.guessing []).guessing [] = (w''.guessing (gs ++ [])).guessing [] :=
    congrArg (·.guessing []) hw
  obtain ⟨locals, globals, input, output, guesses⟩ := w''
  obtain rfl : guesses = [] := hnone
  exact hw'

theorem steady_of_outcome {r : World → Except Stop α} {g : World → World}
    (h : ∀ w gs, outcome x (w.guessing gs) = (r w, (g w).guessing gs)) : Steady x := by
  intro w r' w' hw _
  rw [h, Prod.mk.injEq] at hw
  obtain ⟨rfl, rfl⟩ := hw
  exact ⟨rfl, fun gs => h w gs⟩

theorem steady_pure (a : α) : Steady (pure a : Evaluation α) :=
  @steady_of_outcome α (pure a) (fun _ => .ok a) id fun _ _ => rfl

theorem steady_throw (e : Stop) : Steady (throw e : Evaluation α) :=
  @steady_of_outcome α (throw e) (fun _ => .error e) id fun _ _ => rfl

theorem steady_guess : Steady guess := by
  intro w r w' hw hr
  obtain ⟨rfl, -⟩ := Prod.mk.inj hw
  exact absurd rfl hr

theorem steady_modify {g : World → World} (hg : ∀ w gs, g (w.guessing gs) = (g w).guessing gs) :
    Steady (modify g : Evaluation PUnit) :=
  @steady_of_outcome PUnit (modify g) (fun _ => .ok ()) g fun w gs =>
    congrArg (Prod.mk (Except.ok ())) (hg w gs)

theorem Steady.bind (hx : Steady x) (hf : ∀ a, Steady (f a)) : Steady (x >>= f) := by
  intro w r w' hw hr
  rw [outcome_bind] at hw
  rcases hout : outcome x (w.guessing []) with ⟨e | a, v⟩
  · rw [hout] at hw
    obtain ⟨rfl, rfl⟩ := Prod.mk.inj hw
    obtain ⟨hnone, hall⟩ := hx w _ _ hout (fun h => hr (congrArg _ (Except.error.inj h)))
    refine ⟨hnone, fun gs => ?_⟩
    rw [outcome_bind, hall gs]
  · rw [hout] at hw
    obtain ⟨hnone, hall⟩ := hx w _ _ hout nofun
    have hv : v = v.guessing [] := by
      obtain ⟨locals, globals, input, output, guesses⟩ := v
      obtain rfl : guesses = [] := hnone
      rfl
    rw [hv] at hw
    obtain ⟨hnone', hall'⟩ := hf a v r w' hw hr
    refine ⟨hnone', fun gs => ?_⟩
    rw [outcome_bind, hall gs]
    exact hall' gs

theorem steady_determined (o : Option Int32) : Steady (determined o) := by
  cases o with
  | none => exact steady_throw _
  | some v => exact steady_pure v

/-- Looking at the world does no harm as long as the guesses are not looked at. -/
theorem steady_get {f : World → Evaluation β} (hf : ∀ w, Steady (f w))
    (hg : ∀ w gs, f (w.guessing gs) = f w) : Steady (get >>= f) := by
  intro w r w' hw hr
  have hget : ∀ gs, outcome (get >>= f) (w.guessing gs) = outcome (f w) (w.guessing gs) := by
    intro gs
    show outcome (f (w.guessing gs)) (w.guessing gs) = _
    rw [hg]
  rw [hget] at hw
  obtain ⟨hnone, hall⟩ := hf w w r w' hw hr
  exact ⟨hnone, fun gs => by rw [hget, hall]⟩

theorem steady_readVariable (name : String) : Steady (readVariable name) := by
  refine steady_get (fun w => ?_) fun w gs => rfl
  split
  · exact steady_pure _
  · exact steady_guess
  · exact steady_determined _

theorem steady_writeVariable (name : String) (v : Int32) : Steady (writeVariable name v) :=
  steady_modify fun w gs => write_guessing w name v gs

theorem steady_within {scope : Option Table} (hx : Steady x) : Steady (within scope x) :=
  (steady_modify fun _ _ => rfl).bind fun _ => hx.bind fun _ =>
    (steady_modify fun _ _ => rfl).bind fun _ => steady_pure _

theorem steady_printInteger (v : Int32) : Steady (printInteger v) := by
  refine steady_get (fun w => ?_) fun w gs => rfl
  generalize w.output.write (Text.decimal v.toInt ++ "\n") = written
  refine (steady_modify fun _ _ => rfl).bind fun _ => ?_
  split
  · exact steady_pure _
  · exact steady_throw _

theorem steady_readInteger : Steady readInteger := by
  refine steady_get (fun w => ?_) fun w gs => rfl
  refine (steady_modify fun _ _ => rfl).bind fun _ => ?_
  split
  · exact steady_pure _
  · exact steady_throw _

theorem steady_serve {abi : Abi} {helper : String} {argument : Evaluation Int32}
    (h : Steady argument) :
    Steady (serve abi helper argument) := by
  unfold serve
  split
  · exact h.bind fun v => (steady_printInteger v).bind fun _ => steady_pure v
  · exact steady_readInteger

section

variable {abi : Abi} {call : String → List Int32 → Evaluation Int32} {fuel : ℕ}

mutual

theorem steady_expr (hcall : ∀ callee vs, Steady (call callee vs)) :
    ∀ e : Expr, Steady (expr call e)
  | .missing => by rw [expr]; exact steady_throw _
  | .constant c => by rw [expr]; exact steady_pure _
  | .variable r => by rw [expr]; exact steady_readVariable _
  | .binary _ op left right => by
    rw [expr]
    exact (steady_expr hcall left).bind fun a => (steady_expr hcall right).bind fun b =>
      steady_determined _
  | .unary _ op operand => by
    rw [expr]
    exact (steady_expr hcall operand).bind fun a => steady_determined _
  | .call _ callee args => by
    rw [expr]
    exact (steady_exprs hcall args).bind fun vs => hcall callee vs

theorem steady_exprs (hcall : ∀ callee vs, Steady (call callee vs)) :
    ∀ es : List Expr, Steady (exprs call es)
  | [] => by rw [exprs]; exact steady_pure _
  | e :: es => by
    rw [exprs]
    exact (steady_expr hcall e).bind fun v => (steady_exprs hcall es).bind fun vs => steady_pure _

end

theorem steady_repeated {test : Evaluation Bool} {body : Evaluation (Option Int32)}
    (htest : Steady test) (hbody : Steady body) : ∀ n : ℕ, Steady (repeated test body n)
  | 0 => steady_throw _
  | n + 1 => by
    refine htest.bind fun b => ?_
    split
    · refine hbody.bind fun r => ?_
      split
      · exact steady_pure _
      · exact steady_repeated htest hbody n
    · exact steady_pure _

theorem steady_boundOf (e : Expr) : Steady (boundOf e) := by
  unfold boundOf
  split
  · exact steady_pure _
  · exact steady_throw _

theorem steady_round {var : String} {body : Evaluation (Option Int32)} (hbody : Steady body) :
    Steady (round var body) := by
  refine hbody.bind fun r => ?_
  split
  · exact steady_pure _
  · exact (steady_readVariable var).bind fun i => (steady_writeVariable var _).bind fun _ =>
      steady_pure _

mutual

theorem steady_stmt (hcall : ∀ callee vs, Steady (call callee vs)) :
    ∀ s : Stmt, Steady (stmt abi call fuel s)
  | .block b => by rw [stmt]; exact steady_block hcall b
  | .print _ target => by
    rw [stmt]
    exact (steady_expr hcall target).bind fun v => (steady_serve (steady_pure v)).bind fun _ =>
      steady_pure _
  | .read _ target => by
    rw [stmt]
    exact (steady_serve steady_guess).bind fun v => (steady_writeVariable _ v).bind fun _ =>
      steady_pure _
  | .assign _ target value => by
    rw [stmt]
    exact (steady_expr hcall value).bind fun v => (steady_writeVariable _ v).bind fun _ =>
      steady_pure _
  | .branch _ condition yes no => by
    rw [stmt]
    refine (steady_expr hcall condition).bind fun v => ?_
    split
    · exact steady_optionalBlock hcall no
    · exact steady_optionalBlock hcall yes
  | .loop _ condition body => by
    rw [stmt]
    exact steady_repeated ((steady_expr hcall condition).bind fun v => steady_pure _)
      (steady_optionalBlock hcall body) fuel
  | .count _ scope var lower upper body => by
    rw [stmt]
    refine steady_within ((steady_boundOf lower).bind fun lo => (steady_boundOf upper).bind
        fun hi =>
      (steady_writeVariable var lo).bind fun _ => ?_)
    exact steady_repeated ((steady_readVariable var).bind fun v => steady_pure _)
      (steady_round (steady_optionalBlock hcall body)) fuel
  | .ret _ value => by
    rw [stmt]
    exact (steady_expr hcall value).bind fun v => steady_pure _
  | .call _ callee args => by
    rw [stmt]
    exact (steady_exprs hcall args).bind fun vs => (hcall callee vs).bind fun _ => steady_pure _

theorem steady_block (hcall : ∀ callee vs, Steady (call callee vs)) :
    ∀ b : Block, Steady (block abi call fuel b)
  | .mk _ scope _ body => by
    rw [block]
    exact steady_within (steady_stmts hcall body)

theorem steady_optionalBlock (hcall : ∀ callee vs, Steady (call callee vs)) :
    ∀ b : Option Block, Steady (optionalBlock abi call fuel b)
  | none => by rw [optionalBlock]; exact steady_pure _
  | some b => by rw [optionalBlock]; exact steady_block hcall b

theorem steady_stmts (hcall : ∀ callee vs, Steady (call callee vs)) :
    ∀ ss : List Stmt, Steady (stmts abi call fuel ss)
  | [] => by rw [stmts]; exact steady_pure _
  | s :: ss => by
    rw [stmts]
    refine (steady_stmt hcall s).bind fun r => ?_
    split
    · exact steady_pure _
    · exact steady_stmts hcall ss

end

theorem steady_apply (hcall : ∀ callee vs, Steady (call callee vs)) (f : Function)
    (args : List Int32) :
    Steady (apply abi call fuel f args) :=
  steady_get
    (fun _ => (steady_modify fun _ _ => rfl).bind fun _ =>
      (steady_optionalBlock hcall f.body).bind fun _ =>
        (steady_modify fun _ _ => rfl).bind fun _ => steady_pure _) fun _ _ => rfl

end

theorem steady_invoke (abi : Abi) (p : Program) : ∀ (fuel : ℕ) (callee : String) (vs : List Int32),
    Steady (invoke abi p fuel callee vs)
  | 0, _, _ => steady_throw _
  | fuel + 1, callee, vs => by
    rw [invoke]
    split
    · exact steady_serve steady_guess
    · split
      · exact steady_throw _
      · refine (steady_apply (steady_invoke abi p fuel) _ vs).bind fun r => ?_
        split
        · exact steady_pure _
        · exact steady_guess

/-- **Programs are steady**: what they determine does not depend on guesses. -/
theorem steady_program (abi : Abi) (p : Program) (fuel : ℕ) : Steady (program abi p fuel) :=
  steady_apply (steady_invoke abi p fuel) _ []

end RvBackend.Meaning
