import RvBackend.Proofs.Json.Grammar

/-! # Texts that are read as their values

The texts of a value are its tokens, each spelt in one of its ways, with white space between them.
The machine that reads tokens makes of them the value again, except that it notes where the parts of
the value stand in the text, and refuses the value if it is nested too deep.

* `Json.IsText`: the texts of a value, by the rules of the format.
* `run_tokens`, `run_tokens_of_deep`: what the machine makes of the tokens of a value.
* `parse_of_isText`, `parse_of_deep`: a text is read as its value, or refused if that is too
  deep. -/

namespace RvBackend.Json

/-! ### Values as tokens -/

mutual

/-- The tokens of a value. -/
def tokens : Json → List Token
  | .null => [.null]
  | .bool b => [.bool b]
  | .number digits => [.number digits]
  | .string s => [.string s]
  | .array [] => [.beginArray, .endArray]
  | .array (v :: vs) => .beginArray :: (tokens v ++ (itemTokens vs ++ [.endArray]))
  | .object [] => [.beginObject, .endObject]
  | .object ((name, _, v) :: ms) =>
    .beginObject :: .string name :: .colon :: (tokens v ++ (memberTokens ms ++ [.endObject]))

/-- The tokens of the items behind the first one. -/
def itemTokens : List Json → List Token
  | [] => []
  | v :: vs => .comma :: (tokens v ++ itemTokens vs)

/-- The tokens of the members behind the first one. -/
def memberTokens : List (String × Extent × Json) → List Token
  | [] => []
  | (name, _, v) :: ms => .comma :: .string name :: .colon :: (tokens v ++ memberTokens ms)

end

/-- A text of a value. -/
def IsText (v : Json) (cs : List Char) : Prop := Spaced v.tokens cs

mutual

/-- How deep arrays and objects are nested in a value. -/
def depth : Json → ℕ
  | .array vs => itemDepth vs + 1
  | .object ms => memberDepth ms + 1
  | _ => 0

/-- The depth of the deepest item. -/
def itemDepth : List Json → ℕ
  | [] => 0
  | v :: vs => max (depth v) (itemDepth vs)

/-- The depth of the deepest member. -/
def memberDepth : List (String × Extent × Json) → ℕ
  | [] => 0
  | (_, _, v) :: ms => max (depth v) (memberDepth ms)

end

mutual

/-- A value without the places where its parts stand in a text. -/
def bare : Json → Json
  | .array vs => .array (bareItems vs)
  | .object ms => .object (bareMembers ms)
  | v => v

/-- Items without their places. -/
def bareItems : List Json → List Json
  | [] => []
  | v :: vs => bare v :: bareItems vs

/-- Members without their places. -/
def bareMembers : List (String × Extent × Json) → List (String × Extent × Json)
  | [] => []
  | (name, _, v) :: ms => (name, {}, bare v) :: bareMembers ms

end

/-- Behind a token that is no number anything may follow. -/
theorem isChain_cons_of_not_isNumber {t : Token} {ts : List Token} (ht : ¬ t.IsNumber)
    (h : ts.IsChain Token.Follows) :
    (t :: ts).IsChain Token.Follows :=
  List.isChain_cons.mpr ⟨fun _ _ hnumber => absurd hnumber ht, h⟩

theorem closes_itemTokens {rest : List Token} (h : ∀ t ∈ rest.head?, t.Closes) (vs : List Json) :
    ∀ t ∈ (itemTokens vs ++ rest).head?, t.Closes := by
  cases vs with
  | nil => exact h
  | cons v vs =>
    intro t ht
    rw [itemTokens] at ht
    obtain rfl := Option.some.inj ht
    exact .inl rfl

theorem closes_memberTokens {rest : List Token} (h : ∀ t ∈ rest.head?, t.Closes)
    (ms : List (String × Extent × Json)) :
    ∀ t ∈ (memberTokens ms ++ rest).head?, t.Closes := by
  cases ms with
  | nil => exact h
  | cons m ms =>
    intro t ht
    rw [memberTokens] at ht
    obtain rfl := Option.some.inj ht
    exact .inl rfl

theorem closes_cons {t : Token} (ht : t.Closes) (rest : List Token) :
    ∀ t' ∈ (t :: rest).head?, t'.Closes := by
  intro t' ht'
  obtain rfl := Option.some.inj ht'
  exact ht

mutual

/-- In the tokens of a value no number is followed by another value. -/
theorem isChain_tokens : ∀ (v : Json) {rest : List Token}, rest.IsChain Token.Follows →
    (∀ t ∈ rest.head?, t.Closes) → (v.tokens ++ rest).IsChain Token.Follows
  | .null, rest, h, _ => isChain_cons_of_not_isNumber id h
  | .bool b, rest, h, _ => isChain_cons_of_not_isNumber id h
  | .number digits, rest, h, hrest => List.isChain_cons.mpr ⟨fun t ht _ => hrest t ht, h⟩
  | .string s, rest, h, _ => isChain_cons_of_not_isNumber id h
  | .array [], rest, h, _ => isChain_cons_of_not_isNumber id (isChain_cons_of_not_isNumber id h)
  | .array (v :: vs), rest, h, _ => by
    have hclose : Token.endArray.Closes := .inr (.inl rfl)
    have hitems := isChain_itemTokens vs (isChain_cons_of_not_isNumber (t := .endArray) id h)
      (closes_cons hclose rest)
    have hall := isChain_tokens v hitems (closes_itemTokens (closes_cons hclose rest) vs)
    rw [tokens, List.cons_append, List.append_assoc, List.append_assoc]
    exact isChain_cons_of_not_isNumber id hall
  | .object [], rest, h, _ => isChain_cons_of_not_isNumber id (isChain_cons_of_not_isNumber id h)
  | .object ((name, _, v) :: ms), rest, h, _ => by
    have hclose : Token.endObject.Closes := .inr (.inr rfl)
    have hmembers :=
      isChain_memberTokens ms (isChain_cons_of_not_isNumber (t := .endObject) id h)
        (closes_cons hclose rest)
    have hall := isChain_tokens v hmembers (closes_memberTokens (closes_cons hclose rest) ms)
    rw [tokens, List.cons_append, List.cons_append, List.cons_append, List.append_assoc,
      List.append_assoc]
    exact isChain_cons_of_not_isNumber id
      (isChain_cons_of_not_isNumber id (isChain_cons_of_not_isNumber id hall))

theorem isChain_itemTokens : ∀ (vs : List Json) {rest : List Token}, rest.IsChain Token.Follows →
    (∀ t ∈ rest.head?, t.Closes) → (itemTokens vs ++ rest).IsChain Token.Follows
  | [], rest, h, _ => h
  | v :: vs, rest, h, hrest => by
    have hall := isChain_tokens v (isChain_itemTokens vs h hrest) (closes_itemTokens hrest vs)
    rw [itemTokens, List.cons_append, List.append_assoc]
    exact isChain_cons_of_not_isNumber id hall

theorem isChain_memberTokens : ∀ (ms : List (String × Extent × Json)) {rest : List Token},
    rest.IsChain Token.Follows → (∀ t ∈ rest.head?, t.Closes) →
      (memberTokens ms ++ rest).IsChain Token.Follows
  | [], rest, h, _ => h
  | (name, _, v) :: ms, rest, h, hrest => by
    have hall := isChain_tokens v (isChain_memberTokens ms h hrest) (closes_memberTokens hrest ms)
    rw [memberTokens, List.cons_append, List.cons_append, List.cons_append, List.append_assoc]
    exact isChain_cons_of_not_isNumber id
      (isChain_cons_of_not_isNumber id (isChain_cons_of_not_isNumber id hall))

end

/-! ### The machine on the tokens of a value -/

theorem run_append (r : Reader) (ls ls' : List Lexeme) :
    r.run (ls ++ ls') = (r.run ls).bind (·.run ls') := by
  induction ls generalizing r with
  | nil => rfl
  | cons l ls ih =>
    rw [List.cons_append, Reader.run, Reader.run, Option.bind_assoc]
    exact congrArg _ (funext fun r' => ih r')

theorem run_singleton (r : Reader) (l : Lexeme) : r.run [l] = r.step l := by
  rw [Reader.run]
  exact Option.bind_fun_some (r.step l)

theorem length_mark (start : List Char) (stack : List OpenValue) :
    (Reader.mark start stack).length = stack.length := by
  unfold Reader.mark
  split <;> rfl

/-- The machine waits for a value. -/
def WantsValue (a : Awaits) : Prop := a = .value ∨ a = .valueOrEnd

/-- The machine waits for the name of a member. -/
def WantsName (a : Awaits) : Prop := a = .name ∨ a = .nameOrEnd

section

variable {a : Awaits} {stack : List OpenValue} {l : Lexeme} {ls : List Lexeme}

theorem step_value (ha : WantsValue a) (hl : l.token ≠ .endArray) :
    Reader.step ⟨a, stack⟩ l = Reader.beginValue l stack := by
  rcases ha with rfl | rfl
  · rfl
  · exact if_neg hl

/-- A token that is a value of its own. -/
theorem run_scalar {t : Token} {v : Json} (ha : WantsValue a) (ht : t ≠ .endArray)
    (hv : ∀ l : Lexeme, l.token = t → ∀ stack, Reader.beginValue l stack =
      Reader.finish v l.extent.rest (Reader.mark l.extent.start stack))
    (hls : ls.map Lexeme.token = [t]) :
    ∃ u start rest, u.bare = v.bare ∧
      Reader.run ⟨a, stack⟩ ls = Reader.finish u rest (Reader.mark start stack) := by
  obtain ⟨l, rfl, hl⟩ := List.map_eq_singleton_iff.mp hls
  exact ⟨v, l.extent.start, l.extent.rest,
    rfl, by rw [run_singleton, step_value ha (by rwa [hl]), hv l hl]⟩

theorem run_beginArray (ha : WantsValue a) (hl : l.token = .beginArray)
    (hdepth : stack.length < maxDepth) :
    Reader.run ⟨a, stack⟩ (l :: ls) =
      Reader.run ⟨.valueOrEnd, .array [] :: Reader.mark l.extent.start stack⟩ ls := by
  rw [Reader.run, step_value ha (by rw [hl]; decide), Reader.beginValue, hl]
  show (Reader.push _ _ _).bind _ = _
  rw [Reader.push, length_mark, if_pos hdepth]
  rfl

theorem run_beginObject (ha : WantsValue a) (hl : l.token = .beginObject)
    (hdepth : stack.length < maxDepth) :
    Reader.run ⟨a, stack⟩ (l :: ls) =
      Reader.run ⟨.nameOrEnd, .object [] :: Reader.mark l.extent.start stack⟩ ls := by
  rw [Reader.run, step_value ha (by rw [hl]; decide), Reader.beginValue, hl]
  show (Reader.push _ _ _).bind _ = _
  rw [Reader.push, length_mark, if_pos hdepth]
  rfl

/-- An array or object that would be too deep is refused. -/
theorem run_begin_of_full (ha : WantsValue a) (hl : l.token = .beginArray ∨ l.token = .beginObject)
    (hdepth : maxDepth ≤ stack.length) : Reader.run ⟨a, stack⟩ (l :: ls) = none := by
  have hfull : ∀ awaits v, Reader.push awaits v (Reader.mark l.extent.start stack) = none :=
    fun awaits v =>
    if_neg (by rw [length_mark]; exact Nat.not_lt.mpr hdepth)
  have hbegin : Reader.beginValue l stack = none := by
    rcases hl with hl | hl
    all_goals
      rw [Reader.beginValue, hl]
      exact hfull _ _
  rw [Reader.run, step_value ha (by rcases hl with hl | hl <;> rw [hl] <;> decide), hbegin]
  rfl

theorem run_endArray {items : List Json} (ha : a = .commaOrEnd ∨ a = .valueOrEnd)
    (hl : l.token = .endArray) :
    Reader.run ⟨a, .array items :: stack⟩ [l] =
      Reader.finish (.array items.reverse) l.extent.rest stack := by
  have hend : Reader.endValue l (.array items :: stack) = Reader.finish (.array items.reverse)
      l.extent.rest stack :=
    if_pos hl
  rw [run_singleton, ← hend]
  rcases ha with rfl | rfl
  · exact if_neg (by rw [hl]; decide)
  · exact if_pos hl

theorem run_endObject {members : List (String × Extent × Json)}
    (ha : a = .commaOrEnd ∨ a = .nameOrEnd) (hl : l.token = .endObject) :
    Reader.run ⟨a, .object members :: stack⟩ [l] =
      Reader.finish (.object members.reverse) l.extent.rest stack := by
  have hend : Reader.endValue l (.object members :: stack) =
      Reader.finish (.object members.reverse) l.extent.rest stack := if_pos hl
  rw [run_singleton, ← hend]
  rcases ha with rfl | rfl
  · exact if_neg (by rw [hl]; decide)
  · exact if_pos hl

/-- A comma leads to the next item or member. -/
theorem run_comma (hl : l.token = .comma) :
    Reader.run ⟨.commaOrEnd, stack⟩ (l :: ls) = (Reader.afterComma stack).bind (·.run ls) := by
  rw [Reader.run]
  exact congrArg (Option.bind · _) (if_pos hl)

/-- The name of a member and the colon behind it. -/
theorem run_name {members : List (String × Extent × Json)} {name : String} {l' : Lexeme}
    (ha : WantsName a) (hl : l.token = .string name) (hl' : l'.token = .colon) :
    Reader.run ⟨a, .object members :: stack⟩ (l :: l' :: ls) =
      Reader.run ⟨.value, .member members name [] :: stack⟩ ls := by
  have hname : Reader.step ⟨a, .object members :: stack⟩ l =
      some ⟨.colon, .member members name [] :: stack⟩ := by
    have hbegin : Reader.beginMember l (.object members :: stack) =
        some ⟨.colon, .member members name [] :: stack⟩ := by
      rw [Reader.beginMember, hl]
    rcases ha with rfl | rfl
    · exact hbegin
    · exact (if_neg (by rw [hl]; exact Token.noConfusion)).trans hbegin
  rw [Reader.run, hname, Option.bind_some, Reader.run]
  exact congrArg (Option.bind · _) (if_pos hl')

end

mutual

/-- **The tokens of a value are read as the value**, if there is room for its depth on the stack. -/
theorem run_tokens :
    ∀ (v : Json) {a : Awaits} {stack : List OpenValue} {ls : List Lexeme}, WantsValue a →
    stack.length + v.depth ≤ maxDepth → ls.map Lexeme.token = v.tokens →
    ∃ u start rest, u.bare = v.bare ∧
      Reader.run ⟨a, stack⟩ ls = Reader.finish u rest (Reader.mark start stack)
  | .null, a, stack, ls, ha, _, hls =>
    run_scalar ha Token.noConfusion (fun l hl stack => by rw [Reader.beginValue, hl]) hls
  | .bool b, a, stack, ls, ha, _, hls =>
    run_scalar ha Token.noConfusion (fun l hl stack => by rw [Reader.beginValue, hl]) hls
  | .number digits, a, stack, ls, ha, _, hls =>
    run_scalar ha Token.noConfusion (fun l hl stack => by rw [Reader.beginValue, hl]) hls
  | .string s, a, stack, ls, ha, _, hls =>
    run_scalar ha Token.noConfusion (fun l hl stack => by rw [Reader.beginValue, hl]) hls
  | .array [], a, stack, ls, ha, hdepth, hls => by
    obtain ⟨l, ls, rfl, hl, hls⟩ := List.map_eq_cons_iff.mp hls
    obtain ⟨l', rfl, hl'⟩ := List.map_eq_singleton_iff.mp hls
    rw [depth] at hdepth
    refine ⟨.array [], l.extent.start, l'.extent.rest, rfl, ?_⟩
    rw [run_beginArray ha hl (by omega), run_endArray (.inr rfl) hl']
    rfl
  | .array (v :: vs), a, stack, ls, ha, hdepth, hls => by
    obtain ⟨l, ls, rfl, hl, hls⟩ := List.map_eq_cons_iff.mp hls
    obtain ⟨first, ls, rfl, hfirst, hls⟩ := List.map_eq_append_iff.mp hls
    obtain ⟨more, ls, rfl, hmore, hls⟩ := List.map_eq_append_iff.mp hls
    obtain ⟨l', rfl, hl'⟩ := List.map_eq_singleton_iff.mp hls
    rw [depth, itemDepth] at hdepth
    have hlength := length_mark l.extent.start stack
    have hroom : (OpenValue.array [] :: Reader.mark l.extent.start stack).length + v.depth ≤
        maxDepth := by
      rw [List.length_cons, hlength]
      omega
    obtain ⟨u, start, rest, hu, hrun⟩ := run_tokens v (.inr rfl) hroom hfirst
    obtain ⟨us, hus, hrun'⟩ :=
      run_itemTokens vs [u] (Reader.mark l.extent.start stack) (by omega) hmore
    refine ⟨.array (u :: us), l.extent.start, l'.extent.rest, ?_, ?_⟩
    · rw [bare, bareItems, hu, hus]
      rfl
    rw [run_beginArray ha hl (by omega), run_append, hrun]
    show Reader.run ⟨.commaOrEnd, .array [u] :: Reader.mark l.extent.start stack⟩ (more ++ [l']) = _
    rw [run_append, hrun', Option.bind_some, run_endArray (.inl rfl) hl', List.reverse_append,
      List.reverse_reverse]
    rfl
  | .object [], a, stack, ls, ha, hdepth, hls => by
    obtain ⟨l, ls, rfl, hl, hls⟩ := List.map_eq_cons_iff.mp hls
    obtain ⟨l', rfl, hl'⟩ := List.map_eq_singleton_iff.mp hls
    rw [depth] at hdepth
    refine ⟨.object [], l.extent.start, l'.extent.rest, rfl, ?_⟩
    rw [run_beginObject ha hl (by omega), run_endObject (.inr rfl) hl']
    rfl
  | .object ((name, _, v) :: ms), a, stack, ls, ha, hdepth, hls => by
    obtain ⟨l, ls, rfl, hl, hls⟩ := List.map_eq_cons_iff.mp hls
    obtain ⟨lname, ls, rfl, hname, hls⟩ := List.map_eq_cons_iff.mp hls
    obtain ⟨lcolon, ls, rfl, hcolon, hls⟩ := List.map_eq_cons_iff.mp hls
    obtain ⟨first, ls, rfl, hfirst, hls⟩ := List.map_eq_append_iff.mp hls
    obtain ⟨more, ls, rfl, hmore, hls⟩ := List.map_eq_append_iff.mp hls
    obtain ⟨l', rfl, hl'⟩ := List.map_eq_singleton_iff.mp hls
    rw [depth, memberDepth] at hdepth
    have hlength := length_mark l.extent.start stack
    have hroom : (OpenValue.member [] name [] :: Reader.mark l.extent.start stack).length +
        v.depth ≤ maxDepth := by
      rw [List.length_cons, hlength]
      omega
    obtain ⟨u, start, rest, hu, hrun⟩ := run_tokens v (.inl rfl) hroom hfirst
    obtain ⟨us, hus, hrun'⟩ :=
      run_memberTokens ms [(name, ⟨start, rest⟩, u)] (Reader.mark l.extent.start stack) (by omega)
        hmore
    refine ⟨.object ((name, ⟨start, rest⟩, u) :: us), l.extent.start, l'.extent.rest, ?_, ?_⟩
    · rw [bare, bareMembers, hu, hus]
      rfl
    rw [run_beginObject ha hl (by omega), run_name (.inr rfl) hname hcolon, run_append, hrun]
    show Reader.run
      ⟨.commaOrEnd, .object [(name, ⟨start, rest⟩, u)] :: Reader.mark l.extent.start stack⟩
      (more ++ [l']) = _
    rw [run_append, hrun', Option.bind_some, run_endObject (.inl rfl) hl', List.reverse_append,
      List.reverse_reverse]
    rfl

theorem run_itemTokens : ∀ (vs items : List Json) (stack : List OpenValue) {ls : List Lexeme},
    stack.length + 1 + itemDepth vs ≤ maxDepth → ls.map Lexeme.token = itemTokens vs →
    ∃ us, bareItems us = bareItems vs ∧ Reader.run ⟨.commaOrEnd, .array items :: stack⟩ ls =
      some ⟨.commaOrEnd, .array (us.reverse ++ items) :: stack⟩
  | [], items, stack, ls, _, hls => by
    obtain rfl := List.map_eq_nil_iff.mp hls
    exact ⟨[], rfl, rfl⟩
  | v :: vs, items, stack, ls, hdepth, hls => by
    obtain ⟨l, ls, rfl, hl, hls⟩ := List.map_eq_cons_iff.mp hls
    obtain ⟨first, more, rfl, hfirst, hmore⟩ := List.map_eq_append_iff.mp hls
    rw [itemDepth] at hdepth
    have hroom : (OpenValue.array items :: stack).length + v.depth ≤ maxDepth := by
      rw [List.length_cons]
      omega
    obtain ⟨u, start, rest, hu, hrun⟩ := run_tokens v (.inl rfl) hroom hfirst
    obtain ⟨us, hus, hrun'⟩ := run_itemTokens vs (u :: items) stack (by omega) hmore
    refine ⟨u :: us, by rw [bareItems, hu, hus]; rfl, ?_⟩
    rw [run_comma hl]
    show Reader.run ⟨.value, .array items :: stack⟩ (first ++ more) = _
    rw [run_append, hrun]
    show Reader.run ⟨.commaOrEnd, .array (u :: items) :: stack⟩ more = _
    rw [hrun', List.reverse_cons, List.append_assoc]
    rfl

theorem run_memberTokens :
    ∀ (ms members : List (String × Extent × Json)) (stack : List OpenValue) {ls : List Lexeme},
    stack.length + 1 + memberDepth ms ≤ maxDepth → ls.map Lexeme.token = memberTokens ms →
    ∃ us, bareMembers us = bareMembers ms ∧ Reader.run ⟨.commaOrEnd, .object members :: stack⟩ ls =
      some ⟨.commaOrEnd, .object (us.reverse ++ members) :: stack⟩
  | [], members, stack, ls, _, hls => by
    obtain rfl := List.map_eq_nil_iff.mp hls
    exact ⟨[], rfl, rfl⟩
  | (name, _, v) :: ms, members, stack, ls, hdepth, hls => by
    obtain ⟨l, ls, rfl, hl, hls⟩ := List.map_eq_cons_iff.mp hls
    obtain ⟨lname, ls, rfl, hname, hls⟩ := List.map_eq_cons_iff.mp hls
    obtain ⟨lcolon, ls, rfl, hcolon, hls⟩ := List.map_eq_cons_iff.mp hls
    obtain ⟨first, more, rfl, hfirst, hmore⟩ := List.map_eq_append_iff.mp hls
    rw [memberDepth] at hdepth
    have hroom : (OpenValue.member members name [] :: stack).length + v.depth ≤ maxDepth := by
      rw [List.length_cons]
      omega
    obtain ⟨u, start, rest, hu, hrun⟩ := run_tokens v (.inl rfl) hroom hfirst
    obtain ⟨us, hus, hrun'⟩ :=
      run_memberTokens ms ((name, ⟨start, rest⟩, u) :: members) stack (by omega) hmore
    refine ⟨(name, ⟨start, rest⟩, u) :: us, by rw [bareMembers, hu, hus]; rfl, ?_⟩
    rw [run_comma hl]
    show Reader.run ⟨.name, .object members :: stack⟩ (lname :: lcolon :: (first ++ more)) = _
    rw [run_name (.inl rfl) hname hcolon, run_append, hrun]
    show Reader.run ⟨.commaOrEnd, .object ((name, ⟨start, rest⟩, u) :: members) :: stack⟩ more = _
    rw [hrun', List.reverse_cons, List.append_assoc]
    rfl

end

mutual

/-- **A value that is too deep is refused**, wherever in it the depth is exceeded. -/
theorem run_tokens_of_deep :
    ∀ (v : Json) {a : Awaits} {stack : List OpenValue} {ls : List Lexeme}, WantsValue a →
    stack.length ≤ maxDepth → maxDepth < stack.length + v.depth → ls.map Lexeme.token = v.tokens →
    Reader.run ⟨a, stack⟩ ls = none
  | .null, a, stack, ls, ha, hstack, hdepth, hls => absurd hdepth (Nat.not_lt.mpr hstack)
  | .bool b, a, stack, ls, ha, hstack, hdepth, hls => absurd hdepth (Nat.not_lt.mpr hstack)
  | .number digits, a, stack, ls, ha, hstack, hdepth, hls => absurd hdepth (Nat.not_lt.mpr hstack)
  | .string s, a, stack, ls, ha, hstack, hdepth, hls => absurd hdepth (Nat.not_lt.mpr hstack)
  | .array [], a, stack, ls, ha, hstack, hdepth, hls => by
    obtain ⟨l, ls, rfl, hl, hls⟩ := List.map_eq_cons_iff.mp hls
    rw [depth, itemDepth] at hdepth
    exact run_begin_of_full ha (.inl hl) (by omega)
  | .array (v :: vs), a, stack, ls, ha, hstack, hdepth, hls => by
    obtain ⟨l, ls, rfl, hl, hls⟩ := List.map_eq_cons_iff.mp hls
    obtain ⟨first, ls, rfl, hfirst, hls⟩ := List.map_eq_append_iff.mp hls
    obtain ⟨more, ls, rfl, hmore, -⟩ := List.map_eq_append_iff.mp hls
    by_cases hfull : maxDepth ≤ stack.length
    · exact run_begin_of_full ha (.inl hl) hfull
    have hlength : (OpenValue.array [] :: Reader.mark l.extent.start stack).length =
        stack.length + 1 := by
      rw [List.length_cons, length_mark]
    rw [depth, itemDepth] at hdepth
    rw [run_beginArray ha hl (by omega), run_append]
    by_cases hv : maxDepth < stack.length + 1 + v.depth
    · rw [run_tokens_of_deep v (.inr rfl) (by omega) (by omega) hfirst]
      rfl
    · have hroom : (OpenValue.array [] :: Reader.mark l.extent.start stack).length + v.depth ≤
        maxDepth := by omega
      obtain ⟨u, start, rest, -, hrun⟩ := run_tokens v (.inr rfl) hroom hfirst
      rw [hrun]
      show Reader.run ⟨.commaOrEnd, .array [u] :: Reader.mark l.extent.start stack⟩ (more ++ ls) = _
      rw [run_append, run_itemTokens_of_deep vs [u] (Reader.mark l.extent.start stack)
        (by rw [length_mark]; omega) (by rw [length_mark]; omega) hmore]
      rfl
  | .object [], a, stack, ls, ha, hstack, hdepth, hls => by
    obtain ⟨l, ls, rfl, hl, hls⟩ := List.map_eq_cons_iff.mp hls
    rw [depth, memberDepth] at hdepth
    exact run_begin_of_full ha (.inr hl) (by omega)
  | .object ((name, _, v) :: ms), a, stack, ls, ha, hstack, hdepth, hls => by
    obtain ⟨l, ls, rfl, hl, hls⟩ := List.map_eq_cons_iff.mp hls
    obtain ⟨lname, ls, rfl, hname, hls⟩ := List.map_eq_cons_iff.mp hls
    obtain ⟨lcolon, ls, rfl, hcolon, hls⟩ := List.map_eq_cons_iff.mp hls
    obtain ⟨first, ls, rfl, hfirst, hls⟩ := List.map_eq_append_iff.mp hls
    obtain ⟨more, ls, rfl, hmore, -⟩ := List.map_eq_append_iff.mp hls
    by_cases hfull : maxDepth ≤ stack.length
    · exact run_begin_of_full ha (.inr hl) hfull
    have hlength : (OpenValue.member [] name [] :: Reader.mark l.extent.start stack).length =
        stack.length + 1 := by
      rw [List.length_cons, length_mark]
    rw [depth, memberDepth] at hdepth
    rw [run_beginObject ha hl (by omega), run_name (.inr rfl) hname hcolon, run_append]
    by_cases hv : maxDepth < stack.length + 1 + v.depth
    · rw [run_tokens_of_deep v (.inl rfl) (by omega) (by omega) hfirst]
      rfl
    · have hroom : (OpenValue.member [] name [] :: Reader.mark l.extent.start stack).length +
          v.depth ≤ maxDepth := by
        omega
      obtain ⟨u, start, rest, -, hrun⟩ := run_tokens v (.inl rfl) hroom hfirst
      rw [hrun]
      show Reader.run
        ⟨.commaOrEnd, .object [(name, ⟨start, rest⟩, u)] :: Reader.mark l.extent.start stack⟩
        (more ++ ls) = _
      rw [run_append, run_memberTokens_of_deep ms _ (Reader.mark l.extent.start stack)
        (by rw [length_mark]; omega) (by rw [length_mark]; omega) hmore]
      rfl

theorem run_itemTokens_of_deep :
    ∀ (vs items : List Json) (stack : List OpenValue) {ls : List Lexeme},
    stack.length < maxDepth → maxDepth < stack.length + 1 + itemDepth vs →
    ls.map Lexeme.token = itemTokens vs →
    Reader.run ⟨.commaOrEnd, .array items :: stack⟩ ls = none
  | [], items, stack, ls, hstack, hdepth, hls => absurd hdepth (Nat.not_lt.mpr hstack)
  | v :: vs, items, stack, ls, hstack, hdepth, hls => by
    obtain ⟨l, ls, rfl, hl, hls⟩ := List.map_eq_cons_iff.mp hls
    obtain ⟨first, more, rfl, hfirst, hmore⟩ := List.map_eq_append_iff.mp hls
    have hlength : (OpenValue.array items :: stack).length = stack.length + 1 := List.length_cons
    rw [itemDepth] at hdepth
    rw [run_comma hl]
    show Reader.run ⟨.value, .array items :: stack⟩ (first ++ more) = _
    rw [run_append]
    by_cases hv : maxDepth < stack.length + 1 + v.depth
    · rw [run_tokens_of_deep v (.inl rfl) (by omega) (by omega) hfirst]
      rfl
    · have hroom : (OpenValue.array items :: stack).length + v.depth ≤ maxDepth := by omega
      obtain ⟨u, start, rest, -, hrun⟩ := run_tokens v (.inl rfl) hroom hfirst
      rw [hrun]
      exact run_itemTokens_of_deep vs (u :: items) stack hstack (by omega) hmore

theorem run_memberTokens_of_deep :
    ∀ (ms members : List (String × Extent × Json)) (stack : List OpenValue) {ls : List Lexeme},
    stack.length < maxDepth → maxDepth < stack.length + 1 + memberDepth ms →
    ls.map Lexeme.token = memberTokens ms →
      Reader.run ⟨.commaOrEnd, .object members :: stack⟩ ls = none
  | [], members, stack, ls, hstack, hdepth, hls => absurd hdepth (Nat.not_lt.mpr hstack)
  | (name, _, v) :: ms, members, stack, ls, hstack, hdepth, hls => by
    obtain ⟨l, ls, rfl, hl, hls⟩ := List.map_eq_cons_iff.mp hls
    obtain ⟨lname, ls, rfl, hname, hls⟩ := List.map_eq_cons_iff.mp hls
    obtain ⟨lcolon, ls, rfl, hcolon, hls⟩ := List.map_eq_cons_iff.mp hls
    obtain ⟨first, more, rfl, hfirst, hmore⟩ := List.map_eq_append_iff.mp hls
    have hlength : (OpenValue.member members name [] :: stack).length = stack.length + 1 :=
      List.length_cons
    rw [memberDepth] at hdepth
    rw [run_comma hl]
    show Reader.run ⟨.name, .object members :: stack⟩ (lname :: lcolon :: (first ++ more)) = _
    rw [run_name (.inl rfl) hname hcolon, run_append]
    by_cases hv : maxDepth < stack.length + 1 + v.depth
    · rw [run_tokens_of_deep v (.inl rfl) (by omega) (by omega) hfirst]
      rfl
    · have hroom : (OpenValue.member members name [] :: stack).length + v.depth ≤ maxDepth := by
        omega
      obtain ⟨u, start, rest, -, hrun⟩ := run_tokens v (.inl rfl) hroom hfirst
      rw [hrun]
      exact run_memberTokens_of_deep ms ((name, ⟨start, rest⟩, u) :: members) stack hstack
        (by omega) hmore

end

/-! ### Texts -/

theorem scan_of_isText {v : Json} {cs : List Char} (h : v.IsText cs) :
    ∃ ls, Token.scan cs = some ls ∧ ls.map Lexeme.token = v.tokens := by
  have hchain := @isChain_tokens v [] List.isChain_nil (by simp)
  rw [List.append_nil] at hchain
  exact scanFrom_of_spaced h hchain le_rfl []

/-- **A text is read as its value**, except for the places, if the value is not nested too deep. -/
theorem parse_of_isText {v : Json} {cs : List Char} (h : v.IsText cs)
    (hdepth : v.depth ≤ maxDepth) :
    ∃ u, parse cs = some u ∧ u.bare = v.bare := by
  obtain ⟨ls, hscan, hls⟩ := scan_of_isText h
  obtain ⟨u, start, rest, hu, hrun⟩ :=
    @run_tokens v .value [] ls (.inl rfl) (by simpa using hdepth) hls
  refine ⟨u, ?_, hu⟩
  rw [parse, hscan, Option.bind_some]
  show (Reader.run ⟨.value, []⟩ ls).bind Reader.value? = _
  rw [hrun]
  rfl

theorem parse_of_deep {v : Json} {cs : List Char} (h : v.IsText cs) (hdepth : maxDepth < v.depth) :
    parse cs = none := by
  obtain ⟨ls, hscan, hls⟩ := scan_of_isText h
  have hrun :=
    @run_tokens_of_deep v .value [] ls (.inl rfl) (Nat.zero_le _) (by simpa using hdepth) hls
  rw [parse, hscan, Option.bind_some]
  show (Reader.run ⟨.value, []⟩ ls).bind Reader.value? = _
  rw [hrun]
  rfl

end RvBackend.Json
