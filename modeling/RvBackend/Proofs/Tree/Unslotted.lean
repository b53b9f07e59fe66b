import RvBackend.Proofs.Tree.Slots

/-! # Trees up to their slots

The slots in the local tables of a tree are what earlier generations have left there; all else in
the tree comes from its source. `Program.unslotted` forgets the slots, so two trees with the same
`unslotted` differ at most in them. The table of the program itself is kept as it is: its entries
are not given slots.

* `unslotted_withSlots`: writing slots into a tree, however few or many, changes nothing else in it.
* `withSlots_unslotted`: with a slot for each entry, nothing of the old slots is left. -/

namespace RvBackend

/-! ### Forgetting slots -/

/-- The entry without its slot. -/
def Entry.unslotted (e : Entry) : Entry := { e with slot := 0 }

/-- The table of a scope without slots. -/
def unslottedScope (scope : Option Table) : Option Table :=
  scope.map fun t => ⟨t.entries.map Entry.unslotted⟩

mutual

/-- The statement without slots in its tables. -/
def Stmt.unslotted : Stmt → Stmt
  | .block b => .block b.unslotted
  | .branch loc condition yes no => .branch loc condition (unslottedBlock yes) (unslottedBlock no)
  | .loop loc condition body => .loop loc condition (unslottedBlock body)
  | .count loc scope var lower upper body =>
    .count loc (unslottedScope scope) var lower upper (unslottedBlock body)
  | .print loc target => .print loc target
  | .read loc target => .read loc target
  | .assign loc target value => .assign loc target value
  | .ret loc value => .ret loc value
  | .call loc callee args => .call loc callee args

/-- The block without slots in its tables. -/
def Block.unslotted : Block → Block
  | .mk loc scope decls statements =>
    .mk loc (unslottedScope scope) decls (unslottedStatements statements)

/-- A block that may be missing, without slots in its tables. -/
def unslottedBlock : Option Block → Option Block
  | none => none
  | some b => some b.unslotted

/-- Statements without slots in their tables. -/
def unslottedStatements : List Stmt → List Stmt
  | [] => []
  | s :: ss => s.unslotted :: unslottedStatements ss

end

/-- The function without slots in its tables. -/
def Function.unslotted (f : Function) : Function :=
  { f with scope := unslottedScope f.scope, body := unslottedBlock f.body }

/-- The program without slots in its local tables. -/
def Program.unslotted (p : Program) : Program :=
  { p with functions := p.functions.map Function.unslotted, body := unslottedBlock p.body }

/-! ### Writing slots changes nothing else -/

variable {α β : Type}

/-- Whatever slots there are, the steps make something with the property `P`. -/
def Yields (x : Slotting α) (P : α → Prop) : Prop := ∀ slots, P (x slots).1

theorem yields_pure {a : α} {P : α → Prop} (h : P a) : Yields (pure a) P := fun _ => h

theorem Yields.bind {x : Slotting α} {f : α → Slotting β} {P : α → Prop} {Q : β → Prop}
    (h : Yields x P) (h' : ∀ a, P a → Yields (f a) Q) : Yields (x >>= f) Q :=
  fun slots => h' _ (h slots) (x slots).2

theorem yields_entry (e : Entry) : Yields e.takeSlot fun e' => e'.unslotted = e.unslotted
  | [] => rfl
  | _ :: _ => rfl

theorem yields_entries : ∀ es : List Entry,
    Yields (es.mapM Entry.takeSlot) fun es' => es'.map Entry.unslotted = es.map Entry.unslotted
  | [] => yields_pure rfl
  | e :: es => by
    rw [List.mapM_cons]
    refine (yields_entry e).bind fun e' he => (yields_entries es).bind fun es' hes => yields_pure ?_
    rw [List.map_cons, List.map_cons, he, hes]

theorem yields_scope : ∀ scope : Option Table,
    Yields (takeSlots scope) fun scope' => unslottedScope scope' = unslottedScope scope
  | none => yields_pure rfl
  | some t => by
    have ht : Yields (do return (⟨← t.entries.mapM Entry.takeSlot⟩ : Table))
        fun t' => unslottedScope (some t') = unslottedScope (some t) :=
      (yields_entries t.entries).bind fun es' hes =>
        yields_pure (congrArg (fun es => some (Table.mk es)) hes)
    exact ht.bind fun t' ht' => yields_pure ht'

mutual

theorem yields_statement : ∀ s : Stmt, Yields s.takeSlots fun s' => s'.unslotted = s.unslotted
  | .block b => (yields_block b).bind fun b' hb =>
    yields_pure (by rw [Stmt.unslotted, Stmt.unslotted, hb])
  | .branch loc condition yes no =>
    (yields_optionalBlock yes).bind fun yes' hyes => (yields_optionalBlock no).bind fun no' hno =>
      yields_pure (by rw [Stmt.unslotted, Stmt.unslotted, hyes, hno])
  | .loop loc condition body =>
    (yields_optionalBlock body).bind fun body' hbody =>
      yields_pure (by rw [Stmt.unslotted, Stmt.unslotted, hbody])
  | .count loc scope var lower upper body =>
    (yields_scope scope).bind fun scope' hscope => (yields_optionalBlock body).bind
        fun body' hbody =>
      yields_pure (by rw [Stmt.unslotted, Stmt.unslotted, hscope, hbody])
  | .print loc target => yields_pure rfl
  | .read loc target => yields_pure rfl
  | .assign loc target value => yields_pure rfl
  | .ret loc value => yields_pure rfl
  | .call loc callee args => yields_pure rfl

theorem yields_block : ∀ b : Block, Yields b.takeSlots fun b' => b'.unslotted = b.unslotted
  | .mk loc scope decls statements =>
    (yields_scope scope).bind fun scope' hscope => (yields_statements statements).bind
        fun ss' hss =>
      yields_pure (by rw [Block.unslotted, Block.unslotted, hscope, hss])

theorem yields_optionalBlock : ∀ b : Option Block,
    Yields (blockTakeSlots b) fun b' => unslottedBlock b' = unslottedBlock b
  | none => yields_pure rfl
  | some b => (yields_block b).bind fun b' hb =>
    yields_pure (by rw [unslottedBlock, unslottedBlock, hb])

theorem yields_statements : ∀ ss : List Stmt,
    Yields (statementsTakeSlots ss) fun ss' => unslottedStatements ss' = unslottedStatements ss
  | [] => yields_pure rfl
  | s :: ss => (yields_statement s).bind fun s' hs => (yields_statements ss).bind fun ss' hss =>
    yields_pure (by rw [unslottedStatements, unslottedStatements, hs, hss])

end

theorem yields_function (f : Function) : Yields f.takeSlots fun f' => f'.unslotted = f.unslotted :=
  (yields_scope f.scope).bind fun scope' hscope => (yields_optionalBlock f.body).bind
      fun body' hbody =>
    yields_pure (by rw [Function.unslotted, Function.unslotted, hscope, hbody])

theorem yields_functions : ∀ fs : List Function,
    Yields (fs.mapM Function.takeSlots) fun fs' =>
      fs'.map Function.unslotted = fs.map Function.unslotted
  | [] => yields_pure rfl
  | f :: fs => by
    rw [List.mapM_cons]
    refine (yields_function f).bind fun f' hf => (yields_functions fs).bind fun fs' hfs =>
      yields_pure ?_
    rw [List.map_cons, List.map_cons, hf, hfs]

/-- **Writing slots changes nothing else**, also if there are not enough of them. -/
theorem unslotted_withSlots (p : Program) (slots : List Int64) :
    (p.withSlots slots).unslotted = p.unslotted := by
  have hsteps : Yields (do
      let functions ← p.functions.mapM Function.takeSlots
      let body ← blockTakeSlots p.body
      return { p with functions, body }) fun p' => p'.unslotted = p.unslotted :=
    (yields_functions p.functions).bind fun fs' hfs => (yields_optionalBlock p.body).bind
        fun body' hbody =>
      yields_pure (by rw [Program.unslotted, Program.unslotted, hfs, hbody])
  exact hsteps slots

/-! ### Enough slots replace all old ones -/

/-- Two ways to use up the same slots that make the same. -/
def TakeAlike (x y : Slotting α) (slots : List Int64) : Prop :=
  ∃ a, Takes x slots a ∧ Takes y slots a

theorem takeAlike_pure {a : α} {slots : List Int64} (h : slots.length = 0) :
    TakeAlike (pure a) (pure a) slots := by
  obtain rfl : slots = [] := List.eq_nil_of_length_eq_zero h
  exact ⟨a, takes_pure a, takes_pure a⟩

theorem TakeAlike.bind {x y : Slotting α} {f g : α → Slotting β} {slots slots' : List Int64}
    (h : TakeAlike x y slots) (h' : ∀ a, TakeAlike (f a) (g a) slots') :
    TakeAlike (x >>= f) (y >>= g) (slots ++ slots') := by
  obtain ⟨a, hx, hy⟩ := h
  obtain ⟨b, hf, hg⟩ := h' a
  exact ⟨b, hx.bind hf, hy.bind hg⟩

theorem TakeAlike.map {x y : Slotting α} {slots : List Int64} (h : TakeAlike x y slots)
    (f : α → β) :
    TakeAlike (do return f (← x)) (do return f (← y)) slots := by
  obtain ⟨a, hx, hy⟩ := h
  exact ⟨f a, hx.map f, hy.map f⟩

theorem takeAlike_scope {scope : Option Table} {slots : List Int64}
    (h : slots.length = (Table.entriesOf scope).length) :
    TakeAlike (takeSlots scope) (takeSlots (unslottedScope scope)) slots := by
  cases scope with
  | none => exact takeAlike_pure h
  | some t =>
    have hplaced : placed (t.entries.map Entry.unslotted) slots = placed t.entries slots := by
      rw [placed, List.zipWith_map_left]
      rfl
    have hentries : TakeAlike (t.entries.mapM Entry.takeSlot)
        ((t.entries.map Entry.unslotted).mapM Entry.takeSlot) slots :=
      ⟨_, takes_entries h, hplaced ▸ takes_entries (by rw [h, List.length_map]; rfl)⟩
    exact (hentries.map Table.mk).map some

mutual

theorem takeAlike_statement : ∀ {s : Stmt} {slots : List Int64}, slots.length = s.entries.length →
    TakeAlike s.takeSlots s.unslotted.takeSlots slots
  | .block b, slots, h => (takeAlike_block h).map Stmt.block
  | .print loc target, slots, h => takeAlike_pure h
  | .read loc target, slots, h => takeAlike_pure h
  | .assign loc target value, slots, h => takeAlike_pure h
  | .branch loc condition yes no, slots, h => by
    rw [Stmt.entries, List.length_append] at h
    obtain ⟨xs, ys, rfl, hxs, hys⟩ := exists_append_of_length h
    exact (takeAlike_optionalBlock hxs).bind fun _ => (takeAlike_optionalBlock hys).map _
  | .loop loc condition body, slots, h => (takeAlike_optionalBlock h).map (Stmt.loop loc condition)
  | .count loc scope var lower upper body, slots, h => by
    rw [Stmt.entries, List.length_append] at h
    obtain ⟨xs, ys, rfl, hxs, hys⟩ := exists_append_of_length h
    exact (takeAlike_scope hxs).bind fun _ => (takeAlike_optionalBlock hys).map _
  | .ret loc value, slots, h => takeAlike_pure h
  | .call loc callee args, slots, h => takeAlike_pure h

theorem takeAlike_block : ∀ {b : Block} {slots : List Int64}, slots.length = b.entries.length →
    TakeAlike b.takeSlots b.unslotted.takeSlots slots
  | .mk loc scope decls body, slots, h => by
    rw [Block.entries, List.length_append] at h
    obtain ⟨xs, ys, rfl, hxs, hys⟩ := exists_append_of_length h
    exact (takeAlike_scope hxs).bind fun _ => (takeAlike_statements hys).map _

theorem takeAlike_optionalBlock : ∀ {b : Option Block} {slots : List Int64},
    slots.length = (blockEntries b).length →
    TakeAlike (blockTakeSlots b) (blockTakeSlots (unslottedBlock b)) slots
  | none, _, h => takeAlike_pure h
  | some _, _, h => (takeAlike_block h).map some

theorem takeAlike_statements : ∀ {ss : List Stmt} {slots : List Int64},
    slots.length = (statementsEntries ss).length →
    TakeAlike (statementsTakeSlots ss) (statementsTakeSlots (unslottedStatements ss)) slots
  | [], slots, h => takeAlike_pure h
  | s :: ss, slots, h => by
    rw [statementsEntries, List.length_append] at h
    obtain ⟨xs, ys, rfl, hxs, hys⟩ := exists_append_of_length h
    exact (takeAlike_statement hxs).bind fun _ => (takeAlike_statements hys).map _

end

theorem takeAlike_functions : ∀ {fs : List Function} {slots : List Int64},
    slots.length = (fs.flatMap Function.entries).length →
    TakeAlike (fs.mapM Function.takeSlots) ((fs.map Function.unslotted).mapM Function.takeSlots)
      slots
  | [], slots, h => takeAlike_pure h
  | f :: fs, slots, h => by
    rw [List.flatMap_cons, List.length_append] at h
    obtain ⟨xs, ys, rfl, hxs, hys⟩ := exists_append_of_length h
    rw [Function.entries, List.length_append] at hxs
    obtain ⟨zs, ws, rfl, hzs, hws⟩ := exists_append_of_length hxs
    have hf : TakeAlike f.takeSlots f.unslotted.takeSlots (zs ++ ws) :=
      (takeAlike_scope hzs).bind fun _ => (takeAlike_optionalBlock hws).map _
    rw [List.map_cons, List.mapM_cons, List.mapM_cons]
    exact hf.bind fun _ => (takeAlike_functions hys).map _

/-- **With a slot for each entry, nothing of the old slots is left.** -/
theorem withSlots_unslotted {p : Program} {slots : List Int64}
    (h : slots.length = (p.functions.flatMap Function.entries).length +
      (blockEntries p.body).length) :
    p.unslotted.withSlots slots = p.withSlots slots := by
  obtain ⟨xs, ys, rfl, hxs, hys⟩ := exists_append_of_length h
  have hsteps : TakeAlike (do
      let functions ← p.functions.mapM Function.takeSlots
      let body ← blockTakeSlots p.body
      return { p with functions, body }) (do
      let functions ← p.unslotted.functions.mapM Function.takeSlots
      let body ← blockTakeSlots p.unslotted.body
      return { p.unslotted with functions, body }) (xs ++ ys) :=
    (takeAlike_functions hxs).bind fun _ => (takeAlike_optionalBlock hys).map _
  obtain ⟨a, hp, hq⟩ := hsteps
  have hleft := congrArg Prod.fst (hq [])
  have hright := congrArg Prod.fst (hp [])
  rw [List.append_nil] at hleft hright
  exact hleft.trans hright.symm

end RvBackend
