import RvBackend.Proofs.Json.Reading
import RvBackend.Proofs.Text.Decimal

/-! # Documents that are read back

A `Document` is what a program writes in JSON: texts, integers, lists and records. A text in JSON
may write one and the same character in several ways, so a document is written with a given spelling
of characters, any one that is read back character by character. Reading what was written gives the
document again, if it is not nested too deep.

* `Document.chars` writes a document, `Document.value` is the value that is written.
* `isText_chars`: what is written is a text of this value.
* `parse_chars`: so a written document is read back, as a value that `Reads` the document. -/

namespace RvBackend.Json

/-- What is written in JSON. -/
inductive Document where
  | text (s : String)
  | integer (n : ℤ)
  | list (items : List Document)
  | record (members : List (String × Document))

/-- A way to write each character of a text so that it is read back, whatever follows. -/
structure Spelling where
  char : Char → List Char
  read : ∀ c rest, stringChar (char c ++ rest) = some (c, rest)

/-- A character as it is, if it can be written so. Control characters are written by their
numbers. -/
def plainChar (c : Char) : List Char :=
  if c = '"' ∨ c = '\\' then ['\\', c]
  else if c.toNat < 0x20 then
    ['\\', 'u', '0', '0', Text.digitChar (c.toNat / 16), Text.digitChar (c.toNat % 16)]
  else [c]

theorem stringChar_plainChar (c : Char) (rest : List Char) :
    stringChar (plainChar c ++ rest) = some (c, rest) := by
  unfold plainChar
  split_ifs with hquote hcontrol
  · rcases hquote with rfl | rfl <;> rfl
  · have hdigits : ∀ n < 0x20,
      Text.readDigits 16 0 ['0', '0', Text.digitChar (n / 16), Text.digitChar (n % 16)] =
        some n := by decide
    have hunit : unitChar c.toNat rest = (Char.ofNat c.toNat, rest) := by
      have hhigh : isHighSurrogate c.toNat = false := by simp [isHighSurrogate]; omega
      have hlow : isLowSurrogate c.toNat = false := by simp [isLowSurrogate]; omega
      simp [unitChar, hhigh, hlow]
    show (Option.map _ (Text.readDigits 16 0 _)).map _ = _
    rw [hdigits c.toNat hcontrol]
    show some (unitChar c.toNat rest) = _
    rw [hunit, Char.ofNat_toNat]
  · have hne : c ≠ '\\' ∧ c ≠ '"' := ⟨fun h => hquote (.inr h), fun h => hquote (.inl h)⟩
    rw [List.singleton_append, stringChar]
    · simp [hcontrol, hne]
    · exact fun _ h => absurd h hne.1
    · exact fun _ _ h => absurd h hne.1

/-- Every character as it is, as far as that can be. -/
def Spelling.plain : Spelling := ⟨plainChar, stringChar_plainChar⟩

namespace Document

/-! ### Writing -/

variable (w : Spelling)

/-- A text between quotes. -/
def quoted (s : String) : List Char := '"' :: (s.toList.flatMap w.char ++ ['"'])

mutual

/-- A document as it is written. -/
def chars : Document → List Char
  | .text s => quoted w s
  | .integer n => Text.decimalChars n
  | .list [] => ['[', ']']
  | .list (d :: ds) => '[' :: (chars d ++ (moreItems ds ++ [']']))
  | .record [] => ['\x7b', '\x7d']
  | .record ((name, d) :: ms) =>
    '\x7b' :: (quoted w name ++ (':' :: (chars d ++ (moreMembers ms ++ ['\x7d']))))

/-- The items behind the first one. -/
def moreItems : List Document → List Char
  | [] => []
  | d :: ds => ',' :: (chars d ++ moreItems ds)

/-- The members behind the first one. -/
def moreMembers : List (String × Document) → List Char
  | [] => []
  | (name, d) :: ms => ',' :: (quoted w name ++ (':' :: (chars d ++ moreMembers ms)))

end

mutual

/-- The value of a document. -/
def value : Document → Json
  | .text s => .string s
  | .integer n => .number (Text.decimal n)
  | .list ds => .array (itemValues ds)
  | .record ms => .object (memberValues ms)

/-- The values of items. -/
def itemValues : List Document → List Json
  | [] => []
  | d :: ds => value d :: itemValues ds

/-- The values of members. -/
def memberValues : List (String × Document) → List (String × Extent × Json)
  | [] => []
  | (name, d) :: ms => (name, {}, value d) :: memberValues ms

end

mutual

/-- How deep lists and records are nested in a document. -/
def depth : Document → ℕ
  | .text _ => 0
  | .integer _ => 0
  | .list ds => itemDepth ds + 1
  | .record ms => memberDepth ms + 1

/-- The depth of the deepest item. -/
def itemDepth : List Document → ℕ
  | [] => 0
  | d :: ds => max (depth d) (itemDepth ds)

/-- The depth of the deepest member. -/
def memberDepth : List (String × Document) → ℕ
  | [] => 0
  | (_, d) :: ms => max (depth d) (memberDepth ms)

end

mutual

/-- A value holds what a document holds, wherever its parts stand in the text. -/
def Reads : Document → Json → Prop
  | .text s, v => v = .string s
  | .integer n, v => v = .number (Text.decimal n)
  | .list ds, v => ∃ vs, v = .array vs ∧ ReadsItems ds vs
  | .record ms, v => ∃ ws, v = .object ws ∧ ReadsMembers ms ws

/-- Values hold what documents hold, one by one. -/
def ReadsItems : List Document → List Json → Prop
  | [], vs => vs = []
  | d :: ds, vs => ∃ v vs', vs = v :: vs' ∧ Reads d v ∧ ReadsItems ds vs'

/-- Members hold what the members of a record hold, one by one. -/
def ReadsMembers : List (String × Document) → List (String × Extent × Json) → Prop
  | [], ws => ws = []
  | (name, d) :: ms, ws => ∃ extent v ws', ws = (name, extent, v) :: ws' ∧ Reads d v ∧
      ReadsMembers ms ws'

end

/-! ### What is written is a text -/

theorem isContent_flatMap (s : List Char) : IsContent (s.flatMap w.char) s := by
  induction s with
  | nil => exact .nil
  | cons c s ih => exact isContent_of_stringChar (w.read c _) ih

theorem isSpelt_quoted (s : String) : (Token.string s).IsSpelt (quoted w s) :=
  ⟨s.toList.flatMap w.char, rfl, isContent_flatMap w s.toList⟩

theorem isNumber_decimalChars (n : ℤ) : IsNumber (Text.decimalChars n) := by
  have hwhole : ∀ n : ℕ, IsWhole (Text.digitsOf 10 n) := by
    intro n
    by_cases hzero : n = 0
    · left
      rw [hzero]
      decide +kernel
    · exact .inr ⟨⟨Text.digitsOf_ne_nil n, fun c hc => Text.isDigit_of_mem_digitsOf hc⟩,
        Text.head?_digitsOf hzero⟩
  cases n with
  | ofNat n =>
    exact ⟨[], _, [], [], by simp [Text.decimalChars], .inl rfl, hwhole n, .inl rfl, .inl rfl⟩
  | negSucc n => exact ⟨['-'], _, [], [], by simp [Text.decimalChars], .inr rfl, hwhole (n + 1),
      .inl rfl, .inl rfl⟩

theorem isSpelt_decimalChars (n : ℤ) :
    (Token.number (Text.decimal n)).IsSpelt (Text.decimalChars n) :=
  ⟨by rw [Text.decimal, String.toList_ofList], isNumber_decimalChars n⟩

theorem spaced_member {name : String} {cs : List Char} {ts : List Token} (h : Spaced ts cs) :
    Spaced (.string name :: .colon :: ts) (quoted w name ++ (':' :: cs)) :=
  .token (isSpelt_quoted w name) (.cons rfl h)

mutual

/-- **What is written is a text of the value of the document.** -/
theorem isText_chars : ∀ d : Document, d.value.IsText (chars w d)
  | .text s => by
    have htext := Spaced.token (isSpelt_quoted w s) .nil
    rwa [List.append_nil] at htext
  | .integer n => by
    have htext := Spaced.token (isSpelt_decimalChars n) .nil
    rwa [List.append_nil] at htext
  | .list [] => .cons rfl (.cons rfl .nil)
  | .list (d :: ds) =>
    .cons rfl ((isText_chars d).append ((spaced_moreItems ds).append (.cons rfl .nil)))
  | .record [] => .cons rfl (.cons rfl .nil)
  | .record ((_, d) :: ms) =>
    .cons rfl
      (spaced_member w ((isText_chars d).append ((spaced_moreMembers ms).append (.cons rfl .nil))))

theorem spaced_moreItems :
    ∀ ds : List Document, Spaced (itemTokens (itemValues ds)) (moreItems w ds)
  | [] => .nil
  | d :: ds => .cons rfl ((isText_chars d).append (spaced_moreItems ds))

theorem spaced_moreMembers :
    ∀ ms : List (String × Document), Spaced (memberTokens (memberValues ms)) (moreMembers w ms)
  | [] => .nil
  | (_, d) :: ms => .cons rfl (spaced_member w ((isText_chars d).append (spaced_moreMembers ms)))

end

mutual

theorem depth_value : ∀ d : Document, d.value.depth = d.depth
  | .text _ => rfl
  | .integer _ => rfl
  | .list ds => congrArg (· + 1) (itemDepth_itemValues ds)
  | .record ms => congrArg (· + 1) (memberDepth_memberValues ms)

theorem itemDepth_itemValues : ∀ ds : List Document, Json.itemDepth (itemValues ds) = itemDepth ds
  | [] => rfl
  | d :: ds => congrArg₂ max (depth_value d) (itemDepth_itemValues ds)

theorem memberDepth_memberValues :
    ∀ ms : List (String × Document), Json.memberDepth (memberValues ms) = memberDepth ms
  | [] => rfl
  | (_, d) :: ms => congrArg₂ max (depth_value d) (memberDepth_memberValues ms)

end

mutual

/-- A value that is the document's except for places holds what the document holds. -/
theorem reads_of_bare : ∀ {d : Document} {v : Json}, v.bare = d.value.bare → Reads d v
  | .text s, v, h => by cases v <;> cases h; rfl
  | .integer n, v, h => by cases v <;> cases h; rfl
  | .list ds, v, h => by
    cases v with
    | array vs => exact ⟨vs, rfl, readsItems_of_bare (Json.array.inj h)⟩
    | _ => cases h
  | .record ms, v, h => by
    cases v with
    | object ws => exact ⟨ws, rfl, readsMembers_of_bare (Json.object.inj h)⟩
    | _ => cases h

theorem readsItems_of_bare :
    ∀ {ds : List Document} {vs : List Json}, bareItems vs = bareItems (itemValues ds) →
    ReadsItems ds vs
  | [], vs, h => by
    cases vs with
    | nil => rfl
    | cons v vs => cases h
  | d :: ds, vs, h => by
    cases vs with
    | nil => cases h
    | cons v vs =>
      obtain ⟨hv, hvs⟩ := List.cons.inj h
      exact ⟨v, vs, rfl, reads_of_bare hv, readsItems_of_bare hvs⟩

theorem readsMembers_of_bare :
    ∀ {ms : List (String × Document)} {ws : List (String × Extent × Json)},
    bareMembers ws = bareMembers (memberValues ms) → ReadsMembers ms ws
  | [], ws, h => by
    cases ws with
    | nil => rfl
    | cons w ws => cases h
  | (name, d) :: ms, ws, h => by
    cases ws with
    | nil => cases h
    | cons w ws =>
      obtain ⟨name', extent, v⟩ := w
      obtain ⟨hw, hws⟩ := List.cons.inj h
      obtain ⟨rfl, hpair⟩ := Prod.mk.inj hw
      exact ⟨extent, v, ws, rfl, reads_of_bare (Prod.mk.inj hpair).2, readsMembers_of_bare hws⟩

end

/-- **What is written is read back**, if it is not nested too deep. -/
theorem parse_chars {d : Document} (h : d.depth ≤ maxDepth) :
    ∃ v, Json.parse (d.chars w) = some v ∧ Reads d v := by
  obtain ⟨v, hparse, hv⟩ := parse_of_isText (isText_chars w d) (by rwa [depth_value])
  exact ⟨v, hparse, reads_of_bare hv⟩

end Document

end RvBackend.Json
