import RvBackend.Proofs.Lower.Slots
import RvBackend.Tree.Decode

/-! # Slots in the tables of a tree

`Program.withSlots` walks through a tree in the order in which its slots were given out. So the
entries of each function get the slots that were made for them, in the order of `Function.entries`.

* `Takes`: what a walk makes of the slots in front of it.
* `takes_statement` and its companions: the entries of a construct get the slots one by one.
* `routines_withSlots`: the functions of a program get the slots that they were given.
* `unplaced_of_decode`: a program that has just been read has no slots yet. -/

namespace RvBackend

variable {α β : Type}

/-- The steps `x` use up the slots `slots` and make `a`, whatever slots follow. -/
def Takes (x : Slotting α) (slots : List Int64) (a : α) : Prop :=
  ∀ rest, (x (slots ++ rest) : α × List Int64) = (a, rest)

theorem takes_pure (a : α) : Takes (pure a) [] a := fun _ => rfl

theorem Takes.bind {x : Slotting α} {f : α → Slotting β} {slots slots' : List Int64} {a : α} {b : β}
    (h : Takes x slots a) (h' : Takes (f a) slots' b) : Takes (x >>= f) (slots ++ slots') b := by
  intro rest
  show f (x ((slots ++ slots') ++ rest)).1 (x ((slots ++ slots') ++ rest)).2 = (b, rest)
  rw [List.append_assoc, h (slots' ++ rest)]
  exact h' rest

theorem Takes.map {x : Slotting α} {slots : List Int64} {a : α} (h : Takes x slots a) (f : α → β) :
    Takes (do return f (← x)) slots (f a) := by
  intro rest
  show (f (x (slots ++ rest)).1, (x (slots ++ rest)).2) = (f a, rest)
  rw [h rest]

/-- Entries with slots of their own. -/
def placed (es : List Entry) (slots : List Int64) : List Entry :=
  es.zipWith (fun e slot => { e with slot }) slots

theorem placed_append {es es' : List Entry} {slots slots' : List Int64}
    (h : slots.length = es.length) :
    placed (es ++ es') (slots ++ slots') = placed es slots ++ placed es' slots' :=
  List.zipWith_append h.symm

theorem exists_append_of_length {m n : ℕ} {slots : List Int64} (h : slots.length = m + n) :
    ∃ xs ys, slots = xs ++ ys ∧ xs.length = m ∧ ys.length = n := by
  refine ⟨slots.take m, slots.drop m, (List.take_append_drop m slots).symm, ?_, ?_⟩
  · rw [List.length_take]; omega
  · rw [List.length_drop]; omega

theorem takes_entries : ∀ {es : List Entry} {slots : List Int64}, slots.length = es.length →
    Takes (es.mapM Entry.takeSlot) slots (placed es slots)
  | [], [], _ => takes_pure []
  | e :: es, slot :: slots, h => by
    rw [List.mapM_cons]
    have hhead : Takes e.takeSlot [slot] { e with slot } := fun _ => rfl
    have htail := takes_entries (Nat.succ.inj h)
    have hcons : Takes (do return { e with slot } :: (← es.mapM Entry.takeSlot)) slots
        ({ e with slot } :: placed es slots) := htail.map _
    exact hhead.bind hcons

theorem takes_scope {scope : Option Table} {slots : List Int64}
    (h : slots.length = (Table.entriesOf scope).length) :
    ∃ scope', Takes (takeSlots scope) slots scope' ∧
      Table.entriesOf scope' = placed (Table.entriesOf scope) slots := by
  cases scope with
  | none =>
    obtain rfl : slots = [] := List.eq_nil_of_length_eq_zero h
    exact ⟨none, takes_pure none, rfl⟩
  | some t => exact ⟨some ⟨placed t.entries slots⟩, ((takes_entries h).map Table.mk).map some, rfl⟩

mutual

theorem takes_statement : ∀ {s : Stmt} {slots : List Int64}, slots.length = s.entries.length →
    ∃ s', Takes s.takeSlots slots s' ∧ s'.entries = placed s.entries slots
  | .block b, slots, h => by
    obtain ⟨b', hb, hentries⟩ := takes_block h
    exact ⟨.block b', hb.map _, hentries⟩
  | .print loc target, slots, h => by
    obtain rfl : slots = [] := List.eq_nil_of_length_eq_zero h
    exact ⟨_, takes_pure _, rfl⟩
  | .read loc target, slots, h => by
    obtain rfl : slots = [] := List.eq_nil_of_length_eq_zero h
    exact ⟨_, takes_pure _, rfl⟩
  | .assign loc target value, slots, h => by
    obtain rfl : slots = [] := List.eq_nil_of_length_eq_zero h
    exact ⟨_, takes_pure _, rfl⟩
  | .branch loc condition yes no, slots, h => by
    rw [Stmt.entries, List.length_append] at h
    obtain ⟨xs, ys, rfl, hxs, hys⟩ := exists_append_of_length h
    obtain ⟨yes', hyes, hyesEntries⟩ := takes_optionalBlock hxs
    obtain ⟨no', hno, hnoEntries⟩ := takes_optionalBlock hys
    refine ⟨.branch loc condition yes' no', hyes.bind (hno.map _), ?_⟩
    rw [Stmt.entries, Stmt.entries, hyesEntries, hnoEntries, placed_append hxs]
  | .loop loc condition body, slots, h => by
    obtain ⟨body', hbody, hentries⟩ := takes_optionalBlock h
    exact ⟨.loop loc condition body', hbody.map _, hentries⟩
  | .count loc scope var lower upper body, slots, h => by
    rw [Stmt.entries, List.length_append] at h
    obtain ⟨xs, ys, rfl, hxs, hys⟩ := exists_append_of_length h
    obtain ⟨scope', hscope, hscopeEntries⟩ := takes_scope hxs
    obtain ⟨body', hbody, hbodyEntries⟩ := takes_optionalBlock hys
    refine ⟨.count loc scope' var lower upper body', hscope.bind (hbody.map _), ?_⟩
    rw [Stmt.entries, Stmt.entries, hscopeEntries, hbodyEntries, placed_append hxs]
  | .ret loc value, slots, h => by
    obtain rfl : slots = [] := List.eq_nil_of_length_eq_zero h
    exact ⟨_, takes_pure _, rfl⟩
  | .call loc callee args, slots, h => by
    obtain rfl : slots = [] := List.eq_nil_of_length_eq_zero h
    exact ⟨_, takes_pure _, rfl⟩

theorem takes_block : ∀ {b : Block} {slots : List Int64}, slots.length = b.entries.length →
    ∃ b', Takes b.takeSlots slots b' ∧ b'.entries = placed b.entries slots
  | .mk loc scope decls body, slots, h => by
    rw [Block.entries, List.length_append] at h
    obtain ⟨xs, ys, rfl, hxs, hys⟩ := exists_append_of_length h
    obtain ⟨scope', hscope, hscopeEntries⟩ := takes_scope hxs
    obtain ⟨body', hbody, hbodyEntries⟩ := takes_statements hys
    refine ⟨.mk loc scope' decls body', hscope.bind (hbody.map _), ?_⟩
    rw [Block.entries, Block.entries, hscopeEntries, hbodyEntries, placed_append hxs]

theorem takes_optionalBlock : ∀ {b : Option Block} {slots : List Int64},
    slots.length = (blockEntries b).length →
    ∃ b', Takes (blockTakeSlots b) slots b' ∧ blockEntries b' = placed (blockEntries b) slots
  | none, slots, h => by
    obtain rfl : slots = [] := List.eq_nil_of_length_eq_zero h
    exact ⟨none, takes_pure none, rfl⟩
  | some b, slots, h => by
    obtain ⟨b', hb, hentries⟩ := takes_block h
    exact ⟨some b', hb.map _, hentries⟩

theorem takes_statements : ∀ {ss : List Stmt} {slots : List Int64},
    slots.length = (statementsEntries ss).length →
    ∃ ss', Takes (statementsTakeSlots ss) slots ss' ∧
      statementsEntries ss' = placed (statementsEntries ss) slots
  | [], slots, h => by
    obtain rfl : slots = [] := List.eq_nil_of_length_eq_zero h
    exact ⟨[], takes_pure [], rfl⟩
  | s :: ss, slots, h => by
    rw [statementsEntries, List.length_append] at h
    obtain ⟨xs, ys, rfl, hxs, hys⟩ := exists_append_of_length h
    obtain ⟨s', hs, hsEntries⟩ := takes_statement hxs
    obtain ⟨ss', hss, hssEntries⟩ := takes_statements hys
    refine ⟨s' :: ss', hs.bind (hss.map _), ?_⟩
    rw [statementsEntries, statementsEntries, hsEntries, hssEntries, placed_append hxs]

end

theorem takes_function {f : Function} {slots : List Int64} (h : slots.length = f.entries.length) :
    ∃ f', Takes f.takeSlots slots f' ∧ f'.name = f.name ∧ f'.entries = placed f.entries slots := by
  rw [Function.entries, List.length_append] at h
  obtain ⟨xs, ys, rfl, hxs, hys⟩ := exists_append_of_length h
  obtain ⟨scope', hscope, hscopeEntries⟩ := takes_scope hxs
  obtain ⟨body', hbody, hbodyEntries⟩ := takes_optionalBlock hys
  refine ⟨{ f with scope := scope', body := body' }, hscope.bind (hbody.map _), rfl, ?_⟩
  rw [Function.entries, Function.entries, hscopeEntries, hbodyEntries, placed_append hxs]

/-! ### Programs that have just been read -/

/-- No slot has been given to a global entry. -/
def Unplaced (p : Program) : Prop := ∀ e ∈ Table.entriesOf p.scope, e.slot = 0

instance (p : Program) : Decidable (Unplaced p) :=
  inferInstanceAs (Decidable (∀ e ∈ Table.entriesOf p.scope, e.slot = 0))

theorem slot_of_entryFields {fields : EntryFields} {e : Entry} (h : fields.entry = .ok e) :
    e.slot = 0 := by
  simp only [EntryFields.entry, ok_bind_iff] at h
  obtain ⟨type, -, h⟩ := h
  split at h
  · cases h; rfl
  · cases h; rfl
  · split at h
    · cases h
    · cases h; rfl
  · cases h

/-- Each of some results comes from one of the values that they are made from. -/
theorem forall_of_mapM {ε : Type} {f : α → Except ε β} {P : β → Prop} :
    ∀ {xs : List α} {ys : List β},
    xs.mapM f = .ok ys → (∀ x ∈ xs, ∀ y, f x = .ok y → P y) → ∀ y ∈ ys, P y
  | [], ys, h, _ => by
    rw [List.mapM_nil, ok_pure_iff] at h
    subst h
    simp
  | x :: xs, ys, h, hP => by
    simp only [List.mapM_cons, ok_bind_iff, ok_pure_iff] at h
    obtain ⟨y, hy, ys', hys, rfl⟩ := h
    rw [List.forall_mem_cons] at hP ⊢
    exact ⟨hP.1 y hy, forall_of_mapM hys hP.2⟩

/-- What holds of each entry that fields describe holds of the entries of a scope. -/
theorem forall_of_readScope {f : Fields} {scope : Option Table} {P : Entry → Prop}
    (h : f.readScope = .ok scope)
    (hP : ∀ {fields : EntryFields} {e : Entry}, fields.entry = .ok e → P e) :
    ∀ e ∈ Table.entriesOf scope, P e := by
  unfold Fields.readScope at h
  split at h
  · cases hes : f.scope.entries.mapM EntryFields.entry with
    | error e => rw [hes] at h; cases h
    | ok es =>
      rw [hes] at h
      cases h
      exact forall_of_mapM hes fun _ _ _ he => hP he
  · cases h
    exact fun _ he => absurd he List.not_mem_nil

theorem unplaced_of_programNode {f : Fields} {p : Program} (h : f.programNode = .ok p) :
    Unplaced p := by
  simp only [Fields.programNode, ok_bind_iff, ok_pure_iff] at h
  obtain ⟨scope, hscope, _, -, _, -, _, -, rfl⟩ := h
  exact forall_of_readScope hscope slot_of_entryFields

theorem unplaced_of_node {f : Fields} {p : Program} (h : f.node = .ok (.program p)) :
    Unplaced p := by
  unfold Fields.node at h
  split at h
  · simp only [ok_bind_iff, ok_pure_iff, Node.program.injEq] at h
    obtain ⟨p', hp, rfl⟩ := h
    exact unplaced_of_programNode hp
  -- the other kinds make other nodes
  all_goals simp only [ok_bind_iff, ok_pure_iff, ok_throw_iff, reduceCtorEq, and_false,
    exists_false] at h

/-- **A program that has just been read has no slots yet.** -/
theorem unplaced_of_decode {bytes : List UInt8} {p : Program} (h : Program.decode bytes = .ok p) :
    Unplaced p := by
  unfold Program.decode Program.ofText at h
  split at h
  · cases h
  · next v _ =>
    rw [ok_bind_iff] at h
    obtain ⟨node, hnode, h⟩ := h
    split at h
    · cases h
      unfold Node.ofJson at hnode
      split at hnode
      · next members =>
        obtain ⟨f, -, hf⟩ := ok_bind_iff.mp hnode
        exact unplaced_of_node hf
      · exact unplaced_of_node hnode
      · cases hnode
    · cases h

/-! ### Programs -/

namespace Lower

/-- The slots of the entries of a function. -/
def functionSlots (abi : Abi) (f : RvBackend.Function) : List Int64 :=
  nextSlots abi ({} : Progress).cursor f.entries.length

/-- A function that differs from another one only by the slots of its entries. -/
def Slotted (abi : Abi) (f f' : RvBackend.Function) : Prop :=
  f'.name = f.name ∧ f'.entries = placed f.entries (functionSlots abi f)

theorem length_functionSlots (abi : Abi) (f : RvBackend.Function) :
    (functionSlots abi f).length = f.entries.length := length_nextSlots abi _ _

theorem takes_functions (abi : Abi) : ∀ fs : List RvBackend.Function,
    ∃ fs', Takes (fs.mapM Function.takeSlots) (fs.flatMap (functionSlots abi)) fs' ∧
      List.Forall₂ (Slotted abi) fs fs'
  | [] => ⟨[], takes_pure [], .nil⟩
  | f :: fs => by
    obtain ⟨f', hf, hname, hentries⟩ := takes_function (length_functionSlots abi f)
    obtain ⟨fs', hfs, hall⟩ := takes_functions abi fs
    refine ⟨f' :: fs', ?_, .cons ⟨hname, hentries⟩ hall⟩
    rw [List.mapM_cons]
    exact hf.bind (hfs.map _)

/-- **The functions of a program get the slots that they were given.** -/
theorem routines_withSlots (abi : Abi) (p : RvBackend.Program) :
    List.Forall₂ (Slotted abi) (routines abi p)
      (routines abi (p.withSlots ((routines abi p).flatMap (functionSlots abi)))) := by
  obtain ⟨fs', hfs, hall⟩ := takes_functions abi p.functions
  have hlength : (functionSlots abi (mainFunction abi p)).length = (blockEntries p.body).length :=
    length_functionSlots abi _
  obtain ⟨body', hbody, hentries⟩ := takes_optionalBlock hlength
  have hsteps : Takes (do
      let functions ← p.functions.mapM Function.takeSlots
      let body ← blockTakeSlots p.body
      return { p with functions, body })
      (p.functions.flatMap (functionSlots abi) ++ functionSlots abi (mainFunction abi p))
      { p with functions := fs', body := body' } := hfs.bind (hbody.map _)
  have hwith : p.withSlots ((routines abi p).flatMap (functionSlots abi)) =
      { p with functions := fs', body := body' } := by
    have := congrArg Prod.fst (hsteps [])
    rw [List.append_nil] at this
    rw [routines, List.flatMap_append, List.flatMap_singleton]
    exact this
  rw [hwith]
  exact List.rel_append hall (.cons ⟨rfl, hentries⟩ .nil)

end Lower

end RvBackend
