import RvBackend.Proofs.Text.Utf8
import RvBackend.Proofs.Tree.Written

/-! # Trees that are read back

A program is read back from its document, however the characters of its texts are spelt.

* `Fills` says that fields, with more members to come, make a node; there is one lemma for each form
  of member.
* `read_expression`, `read_statement`: an expression and a statement are read back from their
  documents.
* `decode_written`: so is a program. -/

namespace RvBackend

open Json (Document maxDepth)
open Json.Document (Reads ReadsItems ReadsMembers)

/-! ### Names of types and operators -/

theorem Ty.ofName_text {t : Ty} (h : t.IsBase) : Ty.ofName t.text = t.resolved := by
  cases t with
  | predeclared p => cases p <;> rfl
  | named name => rfl
  | array element sizes => exact h.elim

theorem Ty.text_of_isBase {t : Ty} (h : t.IsBase) : t.text ≠ "" ∧ '[' ∉ t.text.toList := by
  cases t with
  | predeclared p => cases p <;> decide
  | named name => exact h
  | array element sizes => exact h.elim

/-- A size as it is written behind the element type. -/
def sizeChars (n : ℤ) : List Char := '[' :: (Text.decimalChars n ++ [']'])

theorem Ty.toList_text_array (element : Ty) (sizes : List ℤ) :
    (Ty.array element sizes).text.toList = element.text.toList ++ sizes.flatMap sizeChars := by
  rw [Ty.text, String.toList_append]
  congr 1
  induction sizes with
  | nil => rfl
  | cons n sizes ih =>
    rw [List.map_cons, String.join_cons, String.toList_append, ih, List.flatMap_cons]
    simp [sizeChars, Text.decimal]

theorem parseSize_written {n : ℤ} (hn : InInt64 n) :
    Ty.parseSize (Text.decimalChars n ++ [']']) = some n := by
  rw [Ty.parseSize, Text.stripSuffix_append]
  exact Text.readInt64_decimalChars hn

theorem parseSizes_written : ∀ {n : ℤ} {ns : List ℤ}, InInt64 n → (∀ n ∈ ns, InInt64 n) →
    Ty.parseSizes (Text.decimalChars n ++ ']' :: ns.flatMap sizeChars) = some (n :: ns)
  | n, ns, hn, hns => by
    have hbracket : '[' ∉ Text.decimalChars n ++ [']'] := by
      rw [List.mem_append, not_or]
      exact ⟨fun h => absurd (Text.mem_decimalChars h) (by decide), by decide⟩
    have hfilled : (!(Text.decimalChars n ++ [']']).isEmpty) = true := by simp
    cases ns with
    | nil =>
      rw [List.flatMap_nil, Ty.parseSizes, Text.splitOn_of_notMem hbracket]
      simp [hfilled, parseSize_written hn]
    | cons n' ns =>
      obtain ⟨hn', hns'⟩ := List.forall_mem_cons.mp hns
      have ih := parseSizes_written hn' hns'
      have hsplit : Text.decimalChars n ++ ']' :: (n' :: ns).flatMap sizeChars =
          (Text.decimalChars n ++ [']']) ++
          '[' :: (Text.decimalChars n' ++ ']' :: ns.flatMap sizeChars) := by
        simp [sizeChars]
      rw [Ty.parseSizes] at ih
      rw [hsplit, Ty.parseSizes, Text.splitOn_append _ hbracket,
        List.filter_cons_of_pos (p := fun cs : List Char => !cs.isEmpty) hfilled, List.mapM_cons,
        parseSize_written hn, ih]
      rfl

/-- A type is read back from its name. -/
theorem Ty.parse_text {t : Ty} (h : t.Written) : Ty.parse t.text = .ok t.resolved := by
  have hbase : ∀ {t : Ty}, t.IsBase → Ty.parse t.text = .ok t.resolved := by
    intro t ht
    obtain ⟨hname, hbracket⟩ := Ty.text_of_isBase ht
    rw [Ty.parse, Text.cut_of_notMem hbracket, ← Ty.ofName_text ht]
    exact if_neg (by simpa using hname)
  cases t with
  | predeclared p => exact hbase trivial
  | named name => exact hbase h
  | array element sizes =>
    obtain ⟨helement, hsizes, hwords⟩ := h
    obtain ⟨hname, hbracket⟩ := Ty.text_of_isBase helement
    obtain ⟨n, ns, rfl⟩ := List.exists_cons_of_ne_nil hsizes
    obtain ⟨hn, hns⟩ := List.forall_mem_cons.mp hwords
    have htext : (Ty.array element (n :: ns)).text.toList =
        element.text.toList ++ '[' :: (Text.decimalChars n ++ ']' :: ns.flatMap sizeChars) := by
      rw [Ty.toList_text_array]
      simp [sizeChars]
    obtain ⟨c, cs, hcs⟩ :=
      List.exists_cons_of_ne_nil (show element.text.toList ≠ [] by simpa using hname)
    have hcut := Text.cut_append (Text.decimalChars n ++ ']' :: ns.flatMap sizeChars) hbracket
    rw [Ty.parse, htext, hcut, hcs]
    simp only [parseSizes_written hn hns]
    rw [← hcs, String.ofList_toList, Ty.ofName_text helement]
    rfl

theorem Operator.parse?_text {op : Operator} (h : op ∈ Operator.all) :
    Operator.parse? op.text = some op := by
  have hall : ∀ op ∈ Operator.all, Operator.parse? op.text = some op := by decide
  exact hall op h

/-! ### Places and declared names -/

theorem fold_eq_self {s : String} (h : ∀ c ∈ s.toList, Text.foldChar c = c) : Text.fold s = s :=
  Text.map_eq_self h

theorem readInteger_decimal {n : ℤ} (h : InInt64 n) (old : ℤ) :
    readInteger old (.number (Text.decimal n)) = .ok n := by
  rw [readInteger, Text.decimal, String.toList_ofList, Text.readInt64_decimalChars h]
  rfl

/-- A place is read back from its document. -/
theorem Location.read_document {l old : Location} {v : Json} (h : l.Written)
    (hv : Reads l.document v) :
    readMembers Location.set old v = .ok l := by
  obtain ⟨ws, rfl, _, _, _, rfl, rfl, _, _, _, rfl, rfl, rfl⟩ := hv
  have hline : Text.fold "line" = "line" := fold_eq_self (by decide)
  have hcol : Text.fold "col" = "col" := fold_eq_self (by decide)
  simp only [readMembers, List.foldlM_cons, List.foldlM_nil, hline, hcol, Location.set,
    readInteger_decimal h.1, readInteger_decimal h.2]
  rfl

/-- The fields of a declared name. -/
def Entry.fields (e : Entry) : EntryFields :=
  { name := e.name, kind := e.kind.text, type := e.type.text, level := e.level, value := e.value }

/-- The members of a declared name are read one by one. -/
theorem Entry.read_fields {e : Entry} {v : Json} (h : e.Written) (hv : Reads e.document v) :
    readMembers EntryFields.set {} v = .ok e.fields := by
  obtain ⟨-, hlevel, -, -, -, hwords⟩ := h
  have hname : Text.fold "name" = "name" := fold_eq_self (by decide)
  have hkindName : Text.fold "kind" = "kind" := fold_eq_self (by decide)
  have htype : Text.fold "type" = "type" := fold_eq_self (by decide)
  have hlevelName : Text.fold "level" = "level" := fold_eq_self (by decide)
  have hvalue : Text.fold "value" = "value" := fold_eq_self (by decide)
  unfold Entry.document at hv
  unfold Entry.fields
  cases hval : e.value with
  | none =>
    rw [hval] at hv
    obtain ⟨ws, rfl, _, _, _, rfl, rfl, _, _, _, rfl, rfl, _, _, _, rfl, rfl, _, _, _, rfl, rfl,
      rfl⟩ := hv
    simp only [readMembers, List.foldlM_cons, List.foldlM_nil, hname, hkindName, htype, hlevelName,
      EntryFields.set, readText, readInteger_decimal hlevel]
    rfl
  | some n =>
    have hn : InInt64 n := hwords n hval
    rw [hval] at hv
    obtain ⟨ws, rfl, _, _, _, rfl, rfl, _, _, _, rfl, rfl, _, _, _, rfl, rfl, _, _, _, rfl, rfl, _,
      _, _, rfl, rfl, rfl⟩ := hv
    simp only [readMembers, List.foldlM_cons, List.foldlM_nil, hname, hkindName, htype, hlevelName,
      hvalue, EntryFields.set, readText, readInteger_decimal hlevel, readInteger_decimal hn]
    rfl

/-- A declared name is read back from its fields. -/
theorem Entry.entry_fields {e : Entry} (h : e.Written) : e.fields.entry = .ok e.resolved := by
  obtain ⟨htype, -, hslot, hkind, hvalue, -⟩ := h
  obtain ⟨name, kind, type, level, value, slot⟩ := e
  obtain rfl : slot = 0 := hslot
  have hparse : Ty.parse type.text = .ok type.resolved := Ty.parse_text htype
  have hkinds : kind = .variable ∨ kind = .constant ∨ kind = .parameter := by simpa using hkind
  have hnone : kind ≠ .constant → value = none := fun hne =>
    Option.not_isSome_iff_eq_none.mp fun hsome => hne (hvalue.mp hsome)
  rw [EntryFields.entry, Entry.fields, hparse]
  rcases hkinds with rfl | rfl | rfl
  · obtain rfl := hnone (by decide)
    rfl
  · obtain ⟨v, rfl⟩ := Option.isSome_iff_exists.mp (hvalue.mpr rfl)
    rfl
  · obtain rfl := hnone (by decide)
    rfl

theorem update_of_reads : ∀ {es : List Entry} {vs : List Json}, (∀ e ∈ es, e.Written) →
    ReadsItems (es.map Entry.document) vs → ScopeField.update [] vs = .ok (es.map Entry.fields)
  | [], vs, _, hvs => by
    obtain rfl : vs = [] := hvs
    rfl
  | e :: es, vs, h, hvs => by
    obtain ⟨v, vs, rfl, hv, hvs⟩ := hvs
    obtain ⟨he, hes⟩ := List.forall_mem_cons.mp h
    rw [ScopeField.update, Entry.read_fields he hv, update_of_reads hes hvs]
    rfl

theorem mapM_entry_fields : ∀ {es : List Entry}, (∀ e ∈ es, e.Written) →
    (es.map Entry.fields).mapM EntryFields.entry = .ok (es.map Entry.resolved)
  | [], _ => rfl
  | e :: es, h => by
    obtain ⟨he, hes⟩ := List.forall_mem_cons.mp h
    rw [List.map_cons, List.mapM_cons, Entry.entry_fields he, mapM_entry_fields hes]
    rfl

theorem length_of_readsItems :
    ∀ {ds : List Document} {vs : List Json}, ReadsItems ds vs → vs.length = ds.length
  | [], vs, h => by
    obtain rfl : vs = [] := h
    rfl
  | d :: ds, vs, h => by
    obtain ⟨v, vs, rfl, -, hvs⟩ := h
    exact congrArg (· + 1) (length_of_readsItems hvs)

/-- The entries of a scope are read back from their documents. -/
theorem read_scope {es : List Entry} {v : Json} (h : ∀ e ∈ es, e.Written)
    (hv : Reads (.list (es.map Entry.document)) v) :
    ∃ s, ScopeField.read {} v = .ok s ∧ s.entries = es.map Entry.fields := by
  obtain ⟨vs, rfl, hvs⟩ := hv
  have hlength := length_of_readsItems hvs
  have hupdate := update_of_reads h hvs
  cases vs with
  | nil =>
    refine ⟨{}, rfl, ?_⟩
    obtain rfl : es = [] := by simpa using hlength.symm
    rfl
  | cons v vs =>
    refine ⟨⟨es.map Entry.fields, (v :: vs).length⟩, ?_, ?_⟩
    · rw [ScopeField.read, hupdate]
      · rfl
      · exact List.cons_ne_nil v vs
    · rw [ScopeField.entries, hlength, List.length_map]
      exact List.take_of_length_le (by rw [List.length_map])

/-! ### The fields of a node -/

/-- The child that a member was read into: none if the member is not there. -/
def Found (d : Option Document) (c : Option Child) : Prop :=
  match d with
  | none => c = none
  | some d => ∃ v extent, c = some { json := v, extent, node := Node.ofJson v } ∧ Reads d v

/-- The fields make the node once they have the members. -/
def Fills (f : Fields) (members : List (String × Option Document)) (node : Node) : Prop :=
  ∀ ws, ReadsMembers (present members) ws → (Fields.ofMembers f ws).bind Fields.node = .ok node

theorem ofMembers_cons {f f' : Fields} {name : String} {extent : Extent} {v : Json}
    {ws : List (String × Extent × Json)} (hname : ∀ c ∈ name.toList, Text.foldChar c = c)
    (h : f.set name { json := v, extent, node := Node.ofJson v } (Child.itemsOf v) = .ok f') :
    Fields.ofMembers f ((name, extent, v) :: ws) =
      Fields.ofMembers { f' with hasScope := f'.hasScope || name == "scope" } ws := by
  rw [Fields.ofMembers, fold_eq_self hname]
  show (f.set name _ _).bind _ = _
  rw [h]
  rfl

/-- A name of a member other than a scope, in small letters. -/
abbrev IsPlain (name : String) : Prop := (∀ c ∈ name.toList, Text.foldChar c = c) ∧ name ≠ "scope"

section

variable {name : String} {fields : List (String × Option Document)} {node : Node}

theorem Fills.nil {f : Fields} (h : f.node = .ok node) : Fills f [] node := by
  rintro ws rfl
  exact h

/-- One more member, other than a scope. -/
theorem Fills.cons {f : Fields} {d : Document} (hname : IsPlain name)
    (h : ∀ v extent, Reads d v →
      ∃ f', f.set name ⟨v, extent, Node.ofJson v⟩ (Child.itemsOf v) = .ok f' ∧
        Fills f' fields node) :
    Fills f ((name, some d) :: fields) node := by
  rintro ws ⟨extent, v, ws, rfl, hv, hws⟩
  obtain ⟨f', hset, hf'⟩ := h v extent hv
  have hsame : { f' with hasScope := f'.hasScope || name == "scope" } = f' := by
    rw [beq_eq_false_iff_ne.mpr hname.2, Bool.or_false]
  rw [ofMembers_cons hname.1 hset, hsame]
  exact hf' ws hws

/-- A text. -/
theorem Fills.text {f : Fields} (put : Fields → String → Fields) (hname : IsPlain name)
    (hset : ∀ (f : Fields) s extent node items,
      f.set name ⟨.string s, extent, node⟩ items = .ok (put f s)) {s : String}
    (h : Fills (put f s) fields node) : Fills f ((name, some (.text s)) :: fields) node := by
  refine .cons hname fun v extent hv => ⟨put f s, ?_, h⟩
  obtain rfl : v = .string s := hv
  exact hset f s extent _ _

/-- A text that is empty if it is missing. -/
theorem Fills.optionalText {f : Fields} (put : Fields → String → Fields) (hempty : put f "" = f)
    (hname : IsPlain name)
    (hset : ∀ (f : Fields) s extent node items,
      f.set name ⟨.string s, extent, node⟩ items = .ok (put f s)) {s : Option String}
    (h : Fills (put f (s.getD "")) fields node) :
    Fills f ((name, s.map .text) :: fields) node := by
  cases s with
  | none =>
    rw [Option.getD_none, hempty] at h
    exact h
  | some s => exact .text put hname hset h

/-- A child that may be missing. -/
theorem Fills.child {f : Fields} (put : Fields → Option Child → Fields) (hnone : put f none = f)
    (hname : IsPlain name)
    (hset : ∀ (f : Fields) c items, f.set name c items = .ok (put f (some c))) {d : Option Document}
    (h : ∀ c, Found d c → Fills (put f c) fields node) : Fills f ((name, d) :: fields) node := by
  cases d with
  | none =>
    have hmissing := h none rfl
    rw [hnone] at hmissing
    exact hmissing
  | some d =>
    refine .cons hname fun v extent hv => ⟨_, hset _ _ _, ?_⟩
    exact h _ ⟨v, extent, rfl, hv⟩

/-- A list of children. -/
theorem Fills.list {f : Fields} (put : Fields → List Child → Fields) (hname : IsPlain name)
    (hset : ∀ (f : Fields) vs extent node items,
      f.set name ⟨.array vs, extent, node⟩ items = .ok (put f items))
    {ds : List Document}
    (h : ∀ vs, ReadsItems ds vs → Fills (put f (Child.ofItems vs)) fields node) :
    Fills f ((name, some (.list ds)) :: fields) node := by
  refine .cons hname fun v extent hv => ?_
  obtain ⟨vs, rfl, hvs⟩ := hv
  refine ⟨put f (Child.ofItems vs), ?_, h vs hvs⟩
  rw [hset f vs extent, Child.itemsOf]

/-- A scope that may be missing. -/
theorem Fills.scope {f : Fields} (hf : f.scope = {}) (hhas : f.hasScope = false) {t : Option Table}
    (ht : Table.Written t)
    (h : ∀ s has,
      (∀ g : Fields, g.scope = s → g.hasScope = has → g.readScope = .ok (Table.resolved t)) →
      Fills { f with scope := s, hasScope := has } fields node) :
    Fills f (("scope", Table.document? t) :: fields) node := by
  cases t with
  | none =>
    have hnone := h {} false fun g _ hg => by rw [Fields.readScope, hg]; rfl
    rw [← hf, ← hhas] at hnone
    exact hnone
  | some t =>
    rintro ws ⟨extent, v, ws, rfl, hv, hws⟩
    obtain ⟨s, hread, hentries⟩ := read_scope ht hv
    have hset : f.set "scope" ⟨v, extent, Node.ofJson v⟩ (Child.itemsOf v) =
        .ok { f with scope := s } := by
      show (do return { f with scope := ← f.scope.read v }) = _
      rw [hf, hread]
      rfl
    have hstep : Fields.ofMembers f (("scope", extent, v) :: ws) =
        Fields.ofMembers { f with scope := s, hasScope := true } ws := by
      rw [ofMembers_cons (by decide) hset]
      simp
    rw [hstep]
    refine h s true (fun g hg hhas => ?_) ws hws
    rw [Fields.readScope, hhas, hg, hentries, mapM_entry_fields ht]
    rfl

/-- A node is made from its document if its parts fill the fields. -/
theorem ofJson_of_fills {kind : String} {loc : Location} {v : Json} (hloc : loc.Written)
    (hv : Reads (nodeDocument kind loc fields) v) (h : Fills { kind, loc } fields node) :
    Node.ofJson v = .ok node := by
  obtain ⟨ws, rfl, extent, _, ws, rfl, rfl, extent', v, ws, rfl, hv, hws⟩ := hv
  have hkind : Fields.set {} "kind" ⟨.string kind, extent, Node.ofJson (.string kind)⟩
    (Child.itemsOf (.string kind)) =
      .ok { kind } := rfl
  have hplace : Fields.set { kind } "loc" ⟨v, extent', Node.ofJson v⟩ (Child.itemsOf v) =
      .ok { kind, loc } := by
    show (do return ({ kind, loc := ← readMembers Location.set {} v } : Fields)) = _
    rw [Location.read_document hloc hv]
    rfl
  rw [Node.ofJson, ofMembers_cons (by decide) hkind]
  show (Fields.ofMembers { kind } _).bind _ = _
  rw [ofMembers_cons (by decide) hplace]
  exact h ws hws

end

/-! ### Children -/

theorem isNull_of_reads {d : Document} {v : Json} (h : Reads d v) : v.isNull = false := by
  cases d with
  | text s => obtain rfl : v = _ := h; rfl
  | integer n => obtain rfl : v = _ := h; rfl
  | list ds => obtain ⟨vs, rfl, -⟩ := h; rfl
  | record ms => obtain ⟨ws, rfl, -⟩ := h; rfl

/-- The documents that are read as a node of the wanted kind. -/
def ReadsAs {α : Type} (view : Node → Option α) (d : Document) (a : α) : Prop :=
  ∀ v, Reads d v → ∃ node, Node.ofJson v = .ok node ∧ view node = some a

section

variable {α β : Type} {view : Node → Option α} {d : Document} {c : Option Child}

theorem typed_of_readsAs {a : α} {v : Json} {extent : Extent} {wanted : String}
    (h : ReadsAs view d a) (hv : Reads d v) :
    Child.typed wanted view { json := v, extent, node := Node.ofJson v } = .ok a := by
  obtain ⟨node, hnode, hview⟩ := h v hv
  simp only [Child.typed, hnode, bind, Except.bind, hview]
  rfl

theorem mapM_typed {wanted : String} {document : β → Document} {g : β → α} :
    ∀ {xs : List β} {vs : List Json},
    (∀ x ∈ xs, ReadsAs view (document x) (g x)) → ReadsItems (xs.map document) vs →
    (Child.ofItems vs).mapM (Child.typed wanted view) = .ok (xs.map g)
  | [], vs, _, hvs => by
    obtain rfl : vs = [] := hvs
    rfl
  | x :: xs, vs, h, hvs => by
    obtain ⟨v, vs, rfl, hv, hvs⟩ := hvs
    obtain ⟨hx, hxs⟩ := List.forall_mem_cons.mp h
    rw [Child.ofItems, List.mapM_cons, typed_of_readsAs hx hv, mapM_typed hxs hvs]
    rfl

theorem expression_of_found {e : Expr} (h : ReadsAs Node.toExpr? d e) (hc : Found (some d) c) :
    Child.expression c = .ok e := by
  obtain ⟨v, extent, rfl, hv⟩ := hc
  obtain ⟨node, hnode, hview⟩ := h v hv
  simp [Child.expression, isNull_of_reads hv, hnode, hview, bind, Except.bind, pure, Except.pure]

theorem reference_of_found {r : Reference} (h : ReadsAs Node.toReference? d r)
    (hc : Found (some d) c) :
    Child.reference c = .ok r := by
  obtain ⟨v, extent, rfl, hv⟩ := hc
  rw [Child.reference, isNull_of_reads hv]
  exact typed_of_readsAs h hv

theorem statement_of_readsAs {s : Stmt} {v : Json} (h : ReadsAs Node.toStmt? d s) (hv : Reads d v) :
    Child.statement { json := v, node := Node.ofJson v } = .ok s := by
  obtain ⟨node, hnode, hview⟩ := h v hv
  simp [Child.statement, hnode, hview, bind, Except.bind, pure, Except.pure]

end

/-! ### Nodes -/

theorem ofJson_reference {r : Reference} {v : Json} (h : r.loc.Written) (hv : Reads r.document v) :
    Node.ofJson v = .ok (.expr (.variable r)) := by
  refine ofJson_of_fills h hv ?_
  exact .text (fun f s => { f with name := s }) (by decide) (fun _ _ _ _ _ => rfl) (.nil rfl)

theorem ofJson_constant {c : Constant} {v : Json} (h : c.Written) (hv : Reads c.document v) :
    Node.ofJson v = .ok (.expr (.constant c.resolved)) := by
  obtain ⟨hloc, htype, hvalue⟩ := h
  refine ofJson_of_fills hloc hv ?_
  refine .text (fun f s => { f with type := s }) (by decide) (fun _ _ _ _ _ => rfl) ?_
  refine .child (fun f x => { f with value := x }) rfl (by decide) (fun _ _ _ => rfl) fun x hx =>
    .nil ?_
  obtain ⟨_, extent, rfl, rfl⟩ := hx
  have hliteral : Fields.literal? (.number (Text.decimal c.value)) = some c.value := by
    rw [Fields.literal?, Text.decimal, String.toList_ofList, Text.readInt64_decimalChars hvalue]
  show (do return Node.expr (.constant (← Fields.constantNode _))) = _
  simp [Fields.constantNode, Fields.readType, Fields.readLiteral, Ty.parse_text htype, hliteral]
  rfl

theorem read_variable {v : Variable} (h : v.Written) :
    ReadsAs Node.toVariable? v.document v.resolved := by
  obtain ⟨hloc, htype, hconstant⟩ := h
  intro j hj
  refine ⟨.variable v.resolved, ofJson_of_fills hloc hj ?_, rfl⟩
  refine .text (fun f s => { f with name := s }) (by decide) (fun _ _ _ _ _ => rfl) ?_
  refine .text (fun f s => { f with type := s }) (by decide) (fun _ _ _ _ _ => rfl) ?_
  refine .child (fun f c => { f with constant := c }) rfl (by decide) (fun _ _ _ => rfl) fun c hc =>
    .nil ?_
  show (do return Node.variable (← Fields.variableNode _)) = _
  simp only [Fields.variableNode, Fields.readType, Ty.parse_text htype]
  cases hvalue : v.constant with
  | none =>
    rw [hvalue] at hc
    obtain rfl : c = none := hc
    simp only [Variable.resolved, hvalue]
    rfl
  | some k =>
    rw [hvalue] at hc
    obtain ⟨w, extent, rfl, hw⟩ := hc
    have hnode : Node.ofJson w = .ok (.expr (.constant k.resolved)) :=
      ofJson_constant (hconstant k hvalue) hw
    simp only [Variable.resolved, hvalue, isNull_of_reads hw, Child.typed, hnode]
    rfl

theorem read_decl {d : Decl} (h : d.Written) : ReadsAs Node.toDecl? d.document d.resolved := by
  obtain ⟨hloc, hvars⟩ := h
  intro v hv
  refine ⟨.decl d.resolved, ofJson_of_fills hloc hv ?_, rfl⟩
  refine .list (fun f cs => { f with vars := cs }) (by decide) (fun _ _ _ _ _ => rfl) fun vs hvs =>
    .nil ?_
  show (do
    return Node.decl { loc := d.loc, vars := ← (Child.ofItems vs).mapM (Child.typed _ _) }) = _
  rw [mapM_typed (fun v hv => read_variable (hvars v hv)) hvs]
  rfl

theorem read_decls {ds : List Decl} {vs : List Json} (h : ∀ d ∈ ds, d.Written)
    (hvs : ReadsItems (ds.map Decl.document) vs) :
    Child.declarations (Child.ofItems vs) = .ok (ds.map Decl.resolved) :=
  mapM_typed (fun d hd => read_decl (h d hd)) hvs

theorem readOperator_of_mem {f : Fields} {op : Operator} (hf : f.op = op.text)
    (h : op ∈ Operator.all) :
    f.readOperator = .ok op := by
  rw [Fields.readOperator, hf, Operator.parse?_text h]
  rfl

/-- The node of a call, from the values of its arguments. -/
theorem read_call {loc : Location} {callee : String} {ds : List Document} {args : List Expr}
    {v : Json} (hloc : loc.Written) (hv : Reads (callDocument loc callee ds) v)
    (hargs : ∀ vs, ReadsItems ds vs →
      (Child.ofItems vs).mapM (fun c => Child.expression (some c)) = .ok args) :
    Node.ofJson v = .ok (.call loc callee args) := by
  refine ofJson_of_fills hloc hv ?_
  refine .text (fun f s => { f with name := s }) (by decide) (fun _ _ _ _ _ => rfl) ?_
  refine .list (fun f cs => { f with args := cs }) (by decide) (fun _ _ _ _ _ => rfl) fun vs hvs =>
    .nil ?_
  show (do return Node.call loc callee (← (Child.ofItems vs).mapM _)) = _
  rw [hargs vs hvs]
  rfl

mutual

/-- **An expression is read back from its document.** -/
theorem read_expression : ∀ {e : Expr}, e.Written → ReadsAs Node.toExpr? e.document e.resolved
  | .missing, h => h.elim
  | .constant c, h => fun _ hv => ⟨.expr (.constant c.resolved), ofJson_constant h hv, rfl⟩
  | .variable r, h => fun _ hv => ⟨.expr (.variable r), ofJson_reference h hv, rfl⟩
  | .binary loc op left right, h => by
    obtain ⟨hloc, hop, hleft, hright⟩ := h
    intro v hv
    refine ⟨.expr (.binary loc op left.resolved right.resolved), ofJson_of_fills hloc hv ?_, rfl⟩
    refine .text (fun f s => { f with op := s }) (by decide) (fun _ _ _ _ _ => rfl) ?_
    refine .child (fun f c => { f with left := c }) rfl (by decide) (fun _ _ _ => rfl) fun cl hcl =>
      ?_
    refine .child (fun f c => { f with right := c }) rfl (by decide) (fun _ _ _ => rfl)
      fun cr hcr => .nil ?_
    show (do return Node.expr (.binary loc (← Fields.readOperator _) (← Child.expression cl)
      (← Child.expression cr))) = _
    rw [readOperator_of_mem rfl hop, expression_of_found (read_expression hleft) hcl,
      expression_of_found (read_expression hright) hcr]
    rfl
  | .unary loc op operand, h => by
    obtain ⟨hloc, hop, hminus, hoperand⟩ := h
    intro v hv
    refine ⟨.expr (.unary loc op operand.resolved), ofJson_of_fills hloc hv ?_, rfl⟩
    refine .text (fun f s => { f with op := s }) (by decide) (fun _ _ _ _ _ => rfl) ?_
    refine .child (fun f c => { f with operand := c }) rfl (by decide) (fun _ _ _ => rfl)
      fun c hc => .nil ?_
    have hread : Fields.readUnary { kind := "UnaryOp", loc, op := op.text, operand := c } =
        .ok op := by
      rw [Fields.readUnary, readOperator_of_mem rfl hop]
      show Except.ok (if op = .minus then .neg else op) = _
      rw [if_neg hminus]
    show (do return Node.expr (.unary loc (← Fields.readUnary _) (← Child.expression c))) = _
    rw [hread, expression_of_found (read_expression hoperand) hc]
    rfl
  | .call loc callee args, h => fun v hv =>
    ⟨.call loc callee (resolvedArguments args), read_call h.1 hv fun _ hvs => read_arguments h.2
      hvs, rfl⟩

theorem read_arguments : ∀ {es : List Expr} {vs : List Json}, ArgumentsWritten es →
    ReadsItems (argumentDocuments es) vs →
    (Child.ofItems vs).mapM (fun c => Child.expression (some c)) = .ok (resolvedArguments es)
  | [], vs, _, hvs => by
    obtain rfl : vs = [] := hvs
    rfl
  | e :: es, vs, h, hvs => by
    obtain ⟨v, vs, rfl, hv, hvs⟩ := hvs
    have he : Child.expression (some { json := v, node := Node.ofJson v }) = .ok e.resolved :=
      expression_of_found (read_expression h.1) ⟨v, {}, rfl, hv⟩
    rw [Child.ofItems, List.mapM_cons, he, read_arguments h.2 hvs]
    rfl

end

section

variable {f : Fields} {scope : Option Table} {decls : List Decl} {body : Option Block}

theorem countNode_ok {lower upper : Expr} (hscope : f.readScope = .ok scope)
    (hlower : Child.expression f.lower = .ok lower) (hupper : Child.expression f.upper = .ok upper)
    (hbody : Child.block f.body = .ok body) :
    f.countNode = .ok (.count f.loc scope f.var lower upper body) := by
  rw [Fields.countNode, hscope, hlower, hupper, hbody]
  rfl

theorem blockNode_ok {statements : List Stmt} (hscope : f.readScope = .ok scope)
    (hdecls : Child.declarations f.decls = .ok decls)
    (hstatements : f.statements.mapM Child.statement = .ok statements) :
    f.blockNode = .ok (.mk f.loc scope decls statements) := by
  rw [Fields.blockNode, hscope, hdecls, hstatements]
  rfl

/-- A function; its type is missing if it has no name. -/
theorem functionNode_ok {type : Option Ty} (hscope : f.readScope = .ok scope)
    (hname : f.type = (type.map Ty.text).getD "") (htype : ∀ t ∈ type, t.Written)
    (hparams : Child.declarations f.params = .ok decls) (hbody : Child.block f.body = .ok body) :
    f.functionNode = .ok ⟨f.loc, f.name, decls, type.map Ty.resolved, scope, body⟩ := by
  rw [Fields.functionNode, hscope, hparams, hbody, hname]
  cases type with
  | none => rfl
  | some t =>
    have hparse : Ty.parse t.text = .ok t.resolved := Ty.parse_text (htype t rfl)
    have hfilled : t.text.isEmpty = false := by
      refine Bool.eq_false_iff.mpr fun hempty => ?_
      rw [String.isEmpty_iff.mp hempty] at hparse
      cases hparse
    simp only [Option.map_some, Option.getD_some, hfilled, Fields.readType, hname, hparse]
    rfl

theorem programNode_ok {functions : List Function} (hscope : f.readScope = .ok scope)
    (hdecls : Child.declarations f.decls = .ok decls)
    (hfunctions : f.functions.mapM (Child.typed "Function" Node.toFunction?) = .ok functions)
    (hbody : Child.block f.body = .ok body) :
    f.programNode = .ok ⟨f.loc, f.name, f.file, scope, decls, functions, body⟩ := by
  rw [Fields.programNode, hscope, hdecls, hfunctions, hbody]
  rfl

end

theorem target_of_found {r : Reference} {c : Option Child} (h : r.loc.Written)
    (hc : Found (some r.document) c) :
    Child.reference c = .ok r :=
  reference_of_found (fun _ hv => ⟨.expr (.variable r), ofJson_reference h hv, rfl⟩) hc

mutual

/-- **A statement is read back from its document.** -/
theorem read_statement : ∀ {s : Stmt}, s.Written → ReadsAs Node.toStmt? s.document s.resolved
  | .block b, h => fun _ hv => ⟨.stmt (.block b.resolved), ofJson_block h hv, rfl⟩
  | .print loc target, h => by
    intro v hv
    refine ⟨.stmt (.print loc target.resolved), ofJson_of_fills h.1 hv ?_, rfl⟩
    refine .child (fun f c => { f with target := c }) rfl (by decide) (fun _ _ _ => rfl) fun c hc =>
      .nil ?_
    show (do return Node.stmt (.print loc (← Child.expression c))) = _
    rw [expression_of_found (read_expression h.2) hc]
    rfl
  | .read loc target, h => by
    intro v hv
    refine ⟨.stmt (.read loc target), ofJson_of_fills h.1 hv ?_, rfl⟩
    refine .child (fun f c => { f with target := c }) rfl (by decide) (fun _ _ _ => rfl) fun c hc =>
      .nil ?_
    show (do return Node.stmt (.read loc (← Child.reference c))) = _
    rw [target_of_found h.2 hc]
    rfl
  | .assign loc target value, h => by
    obtain ⟨hloc, htarget, hvalue⟩ := h
    intro v hv
    refine ⟨.stmt (.assign loc target value.resolved), ofJson_of_fills hloc hv ?_, rfl⟩
    refine .child (fun f c => { f with target := c }) rfl (by decide) (fun _ _ _ => rfl)
      fun ct hct => ?_
    refine .child (fun f c => { f with value := c }) rfl (by decide) (fun _ _ _ => rfl)
      fun cv hcv => .nil ?_
    show (do return Node.stmt (.assign loc (← Child.reference ct) (← Child.expression cv))) = _
    rw [target_of_found htarget hct, expression_of_found (read_expression hvalue) hcv]
    rfl
  | .branch loc condition yes no, h => by
    obtain ⟨hloc, hcondition, hyes, hno⟩ := h
    intro v hv
    refine ⟨.stmt (.branch loc condition.resolved (resolvedBlock yes) (resolvedBlock no)),
      ofJson_of_fills hloc hv ?_, rfl⟩
    refine .child (fun f c => { f with condition := c }) rfl (by decide) (fun _ _ _ => rfl)
      fun cc hcc => ?_
    refine .child (fun f c => { f with yes := c }) rfl (by decide) (fun _ _ _ => rfl) fun cy hcy =>
      ?_
    refine .child (fun f c => { f with no := c }) rfl (by decide) (fun _ _ _ => rfl) fun cn hcn =>
      .nil ?_
    show (do return Node.stmt (.branch loc (← Child.expression cc) (← Child.block cy)
        (← Child.block cn))) = _
    rw [expression_of_found (read_expression hcondition) hcc, block_of_found hyes hcy,
      block_of_found hno hcn]
    rfl
  | .loop loc condition body, h => by
    obtain ⟨hloc, hcondition, hbody⟩ := h
    intro v hv
    refine ⟨.stmt (.loop loc condition.resolved (resolvedBlock body)), ofJson_of_fills hloc hv ?_,
      rfl⟩
    refine .child (fun f c => { f with condition := c }) rfl (by decide) (fun _ _ _ => rfl)
      fun cc hcc => ?_
    refine .child (fun f c => { f with body := c }) rfl (by decide) (fun _ _ _ => rfl) fun cb hcb =>
      .nil ?_
    show (do return Node.stmt (.loop loc (← Child.expression cc) (← Child.block cb))) = _
    rw [expression_of_found (read_expression hcondition) hcc, block_of_found hbody hcb]
    rfl
  | .count loc scope var lower upper body, h => by
    obtain ⟨hloc, hscope, hlower, hupper, hbody⟩ := h
    intro v hv
    refine ⟨.stmt
      (.count loc (Table.resolved scope) var lower.resolved upper.resolved (resolvedBlock body)),
      ofJson_of_fills hloc hv ?_, rfl⟩
    refine .scope rfl rfl hscope fun s has hs => ?_
    refine .text (fun f x => { f with var := x }) (by decide) (fun _ _ _ _ _ => rfl) ?_
    refine .child (fun f c => { f with lower := c }) rfl (by decide) (fun _ _ _ => rfl)
      fun cl hcl => ?_
    refine .child (fun f c => { f with upper := c }) rfl (by decide) (fun _ _ _ => rfl)
      fun cu hcu => ?_
    refine .child (fun f c => { f with body := c }) rfl (by decide) (fun _ _ _ => rfl) fun cb hcb =>
      .nil ?_
    show (do return Node.stmt (← Fields.countNode _)) = _
    rw [countNode_ok (hs _ rfl rfl) (expression_of_found (read_expression hlower) hcl)
      (expression_of_found (read_expression hupper) hcu) (block_of_found hbody hcb)]
    rfl
  | .ret loc value, h => by
    intro v hv
    refine ⟨.stmt (.ret loc value.resolved), ofJson_of_fills h.1 hv ?_, rfl⟩
    refine .child (fun f c => { f with value := c }) rfl (by decide) (fun _ _ _ => rfl) fun c hc =>
      .nil ?_
    show (do return Node.stmt (.ret loc (← Child.expression c))) = _
    rw [expression_of_found (read_expression h.2) hc]
    rfl
  | .call loc callee args, h => fun v hv =>
    ⟨.call loc callee (resolvedArguments args), read_call h.1 hv fun _ hvs => read_arguments h.2
      hvs, rfl⟩

theorem ofJson_block : ∀ {b : Block} {v : Json}, b.Written → Reads b.document v →
    Node.ofJson v = .ok (.stmt (.block b.resolved))
  | .mk loc scope decls statements, v, h, hv => by
    obtain ⟨hloc, hscope, hdecls, hstatements⟩ := h
    refine ofJson_of_fills hloc hv ?_
    refine .scope rfl rfl hscope fun s has hs => ?_
    refine .list (fun f cs => { f with decls := cs }) (by decide) (fun _ _ _ _ _ => rfl)
      fun ds hds => ?_
    refine .list (fun f cs => { f with statements := cs }) (by decide) (fun _ _ _ _ _ => rfl)
      fun ss hss => .nil ?_
    show (do return Node.stmt (.block (← Fields.blockNode _))) = _
    rw [blockNode_ok (hs _ rfl rfl) (read_decls hdecls hds) (read_statements hstatements hss)]
    rfl

theorem block_of_found :
    ∀ {b : Option Block} {c : Option Child}, BlockWritten b → Found (blockDocument? b) c →
    Child.block c = .ok (resolvedBlock b)
  | none, c, _, hc => by
    obtain rfl : c = none := hc
    rfl
  | some b, c, h, hc => by
    obtain ⟨v, extent, rfl, hv⟩ := hc
    have hnode : Node.ofJson v = .ok (.stmt (.block b.resolved)) := ofJson_block h hv
    simp only [Child.block, isNull_of_reads hv, Child.typed, hnode]
    rfl

theorem read_statements : ∀ {ss : List Stmt} {vs : List Json}, StatementsWritten ss →
    ReadsItems (statementDocuments ss) vs →
      (Child.ofItems vs).mapM Child.statement = .ok (resolvedStatements ss)
  | [], vs, _, hvs => by
    obtain rfl : vs = [] := hvs
    rfl
  | s :: ss, vs, h, hvs => by
    obtain ⟨v, vs, rfl, hv, hvs⟩ := hvs
    rw [Child.ofItems, List.mapM_cons, statement_of_readsAs (read_statement h.1) hv,
      read_statements h.2 hvs]
    rfl

end

theorem read_function {f : Function} (h : f.Written) :
    ReadsAs Node.toFunction? f.document f.resolved := by
  obtain ⟨hloc, htype, hscope, hparams, hbody⟩ := h
  intro v hv
  refine ⟨.function f.resolved, ofJson_of_fills hloc hv ?_, rfl⟩
  refine .text (fun f s => { f with name := s }) (by decide) (fun _ _ _ _ _ => rfl) ?_
  refine .optionalText (fun f s => { f with type := s }) rfl (by decide) (fun _ _ _ _ _ => rfl) ?_
  refine .scope rfl rfl hscope fun s has hs => ?_
  refine .list (fun f cs => { f with params := cs }) (by decide) (fun _ _ _ _ _ => rfl)
    fun ps hps => ?_
  refine .child (fun f c => { f with body := c }) rfl (by decide) (fun _ _ _ => rfl) fun cb hcb =>
    .nil ?_
  show (do return Node.function (← Fields.functionNode _)) = _
  rw [functionNode_ok (hs _ rfl rfl) rfl htype (read_decls hparams hps) (block_of_found hbody hcb)]
  rfl

theorem ofJson_program {p : Program} {v : Json} (h : p.Written) (hv : Reads p.document v) :
    Node.ofJson v = .ok (.program p.resolved) := by
  obtain ⟨hloc, hscope, hdecls, hfunctions, hbody⟩ := h
  refine ofJson_of_fills hloc hv ?_
  refine .text (fun f s => { f with name := s }) (by decide) (fun _ _ _ _ _ => rfl) ?_
  refine .text (fun f s => { f with file := s }) (by decide) (fun _ _ _ _ _ => rfl) ?_
  refine .scope rfl rfl hscope fun s has hs => ?_
  refine .list (fun f cs => { f with decls := cs }) (by decide) (fun _ _ _ _ _ => rfl) fun ds hds =>
    ?_
  refine .list (fun f cs => { f with functions := cs }) (by decide) (fun _ _ _ _ _ => rfl)
    fun fs hfs => ?_
  refine .child (fun f c => { f with body := c }) rfl (by decide) (fun _ _ _ => rfl) fun cb hcb =>
    .nil ?_
  show (do return Node.program (← Fields.programNode _)) = _
  rw [programNode_ok (hs _ rfl rfl) (read_decls hdecls hds)
    (mapM_typed (fun f hf => read_function (hfunctions f hf)) hfs) (block_of_found hbody hcb)]
  rfl

/-! ### Programs -/

/-- The bytes of a program's document, with a spelling of characters. -/
def Program.bytes (w : Json.Spelling) (p : Program) : List UInt8 :=
  Text.utf8 (String.ofList (p.document.chars w))

/-- **A program is read back from its document**, with types by their names, if the document is not
nested too deep. If all its types are those of their names, it is the very program. -/
theorem decode_written (w : Json.Spelling) {p : Program} (h : p.Written)
    (hdepth : p.document.depth ≤ maxDepth) :
    Program.decode (p.bytes w) = .ok p.resolved ∧
      (Resolved p.types → Program.decode (p.bytes w) = .ok p) := by
  have hdecode : Program.decode (p.bytes w) = .ok p.resolved := by
    obtain ⟨v, hparse, hv⟩ := Document.parse_chars w hdepth
    rw [Program.decode, Program.bytes, Text.charsOfBytes_utf8, String.toList_ofList, Program.ofText,
      hparse]
    show (Node.ofJson v).bind _ = _
    rw [ofJson_program h hv]
    rfl
  refine ⟨hdecode, fun hresolved => ?_⟩
  rw [hdecode, Program.resolved_eq_self hresolved]

/-- A program with one node of every kind. -/
def specimen : Program :=
  let zero : Expr := .constant { loc := ⟨7, 9⟩, type := .boolean, value := 0 }
  let n : Reference := { loc := ⟨8, 2⟩, name := "n" }
  let inner : Block :=
    .mk ⟨5, 1⟩ none [] [.print ⟨5, 3⟩ (.unary ⟨5, 9⟩ .neg (.variable n)), .read ⟨6, 3⟩ n]
  let scope : Table :=
    ⟨[⟨"n", .parameter, .integer, 1, none, 0⟩, ⟨"k", .constant, .boolean, 1, some (-3), 0⟩]⟩
  { loc := ⟨1, 1⟩
    name := "say \"hi\"\n"
    file := "λ.p"
    scope := some ⟨[⟨"a", .variable, .array (.named "Γ") [2, -3], 0, none, 0⟩]⟩
    decls := [⟨⟨2, 1⟩, [⟨⟨2, 5⟩, "a", .array (.named "Γ") [2, -3],
      some ⟨⟨2, 7⟩, .integer, 9223372036854775807⟩⟩]⟩]
    functions := [⟨⟨3, 1⟩, "f", [⟨⟨3, 3⟩, []⟩], some .integer, some scope, some inner⟩,
      ⟨{}, "", [], none, none, none⟩]
    body := some (.mk ⟨4, 1⟩ (some ⟨[]⟩) []
      [.assign ⟨4, 3⟩ n (.binary ⟨4, 8⟩ .lessOrEqual zero (.call ⟨4, 9⟩ "f" [zero, .variable n])),
        .branch ⟨7, 1⟩ zero (some inner) none, .loop ⟨8, 1⟩ zero none,
        .count ⟨9, 1⟩ (some scope) "i" zero zero (some inner), .ret ⟨9, 9⟩ zero,
        .call ⟨9, 10⟩ "f" [], .block inner]) }

theorem specimen_decoded :
    specimen.Written ∧ specimen.document.depth ≤ maxDepth ∧ Resolved specimen.types ∧
    Program.decode (specimen.bytes .plain) = .ok specimen :=
  have hwritten : specimen.Written := by decide +kernel
  have hdepth : specimen.document.depth ≤ maxDepth := by decide +kernel
  have hresolved : Resolved specimen.types := by decide +kernel
  ⟨hwritten, hdepth, hresolved, (decode_written .plain hwritten hdepth).2 hresolved⟩

end RvBackend
