import Mathlib.Data.List.Forall2
import RvBackend.Proofs.Text.Decimal
import RvBackend.Proofs.Text.Pieces
import RvBackend.Settings.Load

/-! # Documents of settings

What TOML says of the files that keep settings, whatever program writes or reads them. A document is
a list of lines: the header of a group, a key with its value, or nothing. A value is a number in
decimal, a text in single or double quotes, or a list of such texts in brackets.

* `Denotes` relates a text to the value that it stands for, `IsText` a document to its text.
* `WellFormed`: each group has one header, and each key stands once, under the header of its group.
* `fill`: settings with the values of a document in place of their own.
* `Library.Writes`, `Library.Reads`: what is assumed of a library that keeps settings in files.
* `excerpt`: a file with the lines of some keys only. It is the text of a document again, the one
  with these lines. -/

namespace RvBackend.Settings

/-! ### Values and their texts -/

/-- What a key holds. A list of texts is no more than its items. -/
inductive Content where
  | number (n : Int64)
  | text (s : String)
  | texts (ss : List String)

/-- What a key of settings holds. -/
def content (s : Settings) : Field → Content
  | .frameSize => .number s.abi.frameSize
  | .slotSize => .number s.abi.slotSize
  | .argRegisters => .texts s.abi.argRegisters
  | .overflowRegisters => .texts s.abi.overflowRegisters
  | .printHelper => .text s.abi.printHelper
  | .readHelper => .text s.abi.readHelper
  | .entry => .text s.abi.entry
  | .extension => .text s.output.extension
  | .dir => .text s.output.dir
  | .compiler => .text s.toolchain.compiler
  | .flags => .texts s.toolchain.flags
  | .runner => .texts s.toolchain.runner

/-- Characters that stand in quotes for themselves: all but the control characters, and the tab. -/
def IsPlain (c : Char) : Prop := c = '\t' ∨ 0x20 ≤ c.toNat ∧ c.toNat ≠ 0x7f

/-- What a letter behind a backslash stands for. -/
def escapes : List (Char × Char) :=
  [('b', '\x08'), ('t', '\t'), ('n', '\n'), ('f', '\x0c'), ('r', '\r'), ('"', '"'), ('\\', '\\')]

/-- What stands between double quotes, and the characters that it stands for. -/
inductive BasicBody : List Char → List Char → Prop where
  | nil : BasicBody [] []
  | plain {c : Char} {body cs : List Char} (hc : IsPlain c) (hquote : c ≠ '"')
      (hbackslash : c ≠ '\\') (h : BasicBody body cs) : BasicBody (c :: body) (c :: cs)
  | escape {e c : Char} {body cs : List Char} (he : (e, c) ∈ escapes) (h : BasicBody body cs) :
      BasicBody ('\\' :: e :: body) (c :: cs)
  /-- The number of the character, in base sixteen. -/
  | unicode {u c : Char} {ds body cs : List Char}
      (hlength : u = 'u' ∧ ds.length = 4 ∨ u = 'U' ∧ ds.length = 8)
      (hdigits : Text.readDigits 16 0 ds = some c.toNat) (h : BasicBody body cs) :
      BasicBody ('\\' :: u :: (ds ++ body)) (c :: cs)

/-- A text in quotes, and the text that it stands for. -/
inductive Quoted : List Char → String → Prop where
  | literal {s : String} (h : ∀ c ∈ s.toList, IsPlain c ∧ c ≠ '\'') :
      Quoted ('\'' :: (s.toList ++ ['\''])) s
  | basic {body : List Char} {s : String} (h : BasicBody body s.toList) :
      Quoted ('"' :: (body ++ ['"'])) s

/-- A text, and the value that it stands for. -/
inductive Denotes : List Char → Content → Prop where
  | number (n : Int64) : Denotes (Text.decimalChars n.toInt) (.number n)
  | text {cs : List Char} {s : String} (h : Quoted cs s) : Denotes cs (.text s)
  | texts {items : List (List Char)} {ss : List String} (h : List.Forall₂ Quoted items ss) :
      Denotes ('[' :: (Text.joinWith [',', ' '] items ++ [']'])) (.texts ss)

/-! ### Documents and what they say -/

/-- The name of a group. -/
def groupName : SettingGroup → String
  | .abi => "abi"
  | .output => "output"
  | .toolchain => "toolchain"

/-- The group that a key belongs to. -/
def Field.group : Field → SettingGroup
  | .frameSize | .slotSize | .argRegisters | .overflowRegisters | .printHelper | .readHelper
  | .entry => .abi
  | .extension | .dir => .output
  | .compiler | .flags | .runner => .toolchain

/-- The name of a key. -/
def Field.key : Field → String
  | .frameSize => "frame_size"
  | .slotSize => "slot_size"
  | .argRegisters => "arg_registers"
  | .overflowRegisters => "overflow_registers"
  | .printHelper => "print_helper"
  | .readHelper => "read_helper"
  | .entry => "entry"
  | .extension => "extension"
  | .dir => "dir"
  | .compiler => "cc"
  | .flags => "cflags"
  | .runner => "run"

/-- The kind of what a key can hold. -/
def Field.kind : Field → SettingKind
  | .frameSize | .slotSize => .number
  | .argRegisters | .overflowRegisters | .flags | .runner => .texts
  | .printHelper | .readHelper | .entry | .extension | .dir | .compiler => .text

/-- The kind of a value. -/
def Content.kind : Content → SettingKind
  | .number _ => .number
  | .text _ => .text
  | .texts _ => .texts

theorem kind_content (s : Settings) (f : Field) : (s.content f).kind = f.kind := by
  cases f <;> rfl

/-- One line of a document. -/
inductive Line where
  | blank
  | header (g : SettingGroup)
  | entry (f : Field) (v : Content)

/-- The group of a header. -/
def Line.header? : Line → Option SettingGroup
  | .header g => some g
  | _ => none

/-- The key of a line. -/
def Line.field? : Line → Option Field
  | .entry f _ => some f
  | _ => none

/-- A line, and its text without its end. -/
inductive Line.Written : Line → List Char → Prop where
  | blank : Written .blank []
  | header (g : SettingGroup) : Written (.header g) ('[' :: ((groupName g).toList ++ [']']))
  | entry {f : Field} {v : Content} {cs : List Char} (h : Denotes cs v) :
      Written (.entry f v) (f.key.toList ++ ' ' :: '=' :: ' ' :: cs)

/-- Lines one after the other, each with its end. -/
def joinLines (ls : List (List Char)) : List Char := ls.flatMap (· ++ ['\n'])

/-- A document, and its text. -/
def IsText (doc : List Line) (text : String) : Prop :=
  ∃ ls, List.Forall₂ Line.Written doc ls ∧ text.toList = joinLines ls

/-- Each key stands under the header of its group; the last header before the lines is that of
`current`. -/
def UnderHeaders (current : Option SettingGroup) : List Line → Prop
  | [] => True
  | .blank :: doc => UnderHeaders current doc
  | .header g :: doc => UnderHeaders (some g) doc
  | .entry f _ :: doc => current = some f.group ∧ UnderHeaders current doc

/-- A document whose groups have one header each, and whose keys stand once, under the header of
their group, with a value of their kind. -/
structure WellFormed (doc : List Line) : Prop where
  headers : (doc.filterMap Line.header?).Nodup
  fields : (doc.filterMap Line.field?).Nodup
  under : UnderHeaders none doc
  fits : ∀ f v, .entry f v ∈ doc → v.kind = f.kind

/-- The settings with another value of a key. A value of another kind changes nothing. -/
def put (s : Settings) : Field → Content → Settings
  | .frameSize, .number n => { s with abi.frameSize := n }
  | .slotSize, .number n => { s with abi.slotSize := n }
  | .argRegisters, .texts rs => { s with abi.argRegisters := rs }
  | .overflowRegisters, .texts rs => { s with abi.overflowRegisters := rs }
  | .printHelper, .text name => { s with abi.printHelper := name }
  | .readHelper, .text name => { s with abi.readHelper := name }
  | .entry, .text name => { s with abi.entry := name }
  | .extension, .text e => { s with output.extension := e }
  | .dir, .text d => { s with output.dir := d }
  | .compiler, .text c => { s with toolchain.compiler := c }
  | .flags, .texts fs => { s with toolchain.flags := fs }
  | .runner, .texts ws => { s with toolchain.runner := ws }
  | _, _ => s

/-- What a line makes of settings. -/
def Line.apply (s : Settings) : Line → Settings
  | .entry f v => s.put f v
  | _ => s

/-- The settings with the values of a document in place of their own. -/
def fill (s : Settings) (doc : List Line) : Settings := doc.foldl Line.apply s

/-- **What a library writes**: a well-formed document that has each key with the value of the
settings, and no other. -/
def Library.Writes (lib : Library) : Prop :=
  ∀ c : Settings, ∃ doc, WellFormed doc ∧ (∀ f v, .entry f v ∈ doc ↔ v = c.content f) ∧
    IsText doc (lib.write c)

/-- **What a library reads**: of the text of a well-formed document, the values of its keys; all
other settings stay as they are. -/
def Library.Reads (lib : Library) : Prop :=
  ∀ (doc : List Line) (text : String) (base : Settings), WellFormed doc → IsText doc text →
    lib.read (Text.utf8 text) base = .ok (base.fill doc)

/-! ### Settings key by key -/

/-- Settings are what their keys hold. -/
theorem eq_of_content {s s' : Settings} (h : ∀ f, s.content f = s'.content f) : s = s' := by
  obtain ⟨⟨_, _, _, _, _, _, _⟩, ⟨_, _⟩, ⟨_, _, _⟩⟩ := s
  obtain ⟨⟨_, _, _, _, _, _, _⟩, ⟨_, _⟩, ⟨_, _, _⟩⟩ := s'
  cases h .frameSize
  cases h .slotSize
  cases h .argRegisters
  cases h .overflowRegisters
  cases h .printHelper
  cases h .readHelper
  cases h .entry
  cases h .extension
  cases h .dir
  cases h .compiler
  cases h .flags
  cases h .runner
  rfl

theorem content_put_self {f : Field} {v : Content} (h : v.kind = f.kind) (s : Settings) :
    (s.put f v).content f = v := by
  cases f <;> cases v <;> first | rfl | cases h

theorem content_put_of_ne {f f' : Field} (h : f' ≠ f) (v : Content) (s : Settings) :
    (s.put f v).content f' = s.content f' := by
  cases f <;> cases v <;> first | rfl | cases f' <;> first | rfl | exact absurd rfl h

/-- A key that is in no line keeps its value. -/
theorem content_fill_of_notMem {f : Field} {doc : List Line} (s : Settings)
    (h : f ∉ doc.filterMap Line.field?) : (s.fill doc).content f = s.content f := by
  induction doc generalizing s with
  | nil => rfl
  | cons l doc ih =>
    cases l with
    | blank => exact ih s h
    | header g => exact ih s h
    | entry f' v =>
      rw [List.filterMap_cons_some (by rfl : (Line.entry f' v).field? = some f'), List.mem_cons,
        not_or] at h
      exact (ih (s.put f' v) h.2).trans (content_put_of_ne h.1 v s)

/-- A key that is in a line holds the value of that line, since it is in no other. -/
theorem content_fill_of_mem {f : Field} {v : Content} {doc : List Line} (s : Settings)
    (hnodup : (doc.filterMap Line.field?).Nodup)
    (hfits : ∀ f v, .entry f v ∈ doc → v.kind = f.kind) (h : .entry f v ∈ doc) :
    (s.fill doc).content f = v := by
  induction doc generalizing s with
  | nil => exact absurd h List.not_mem_nil
  | cons l doc ih =>
    have hrest : ∀ f v, .entry f v ∈ doc → v.kind = f.kind :=
      fun f v h => hfits f v (List.mem_cons_of_mem _ h)
    cases l with
    | blank => exact ih s hnodup hrest ((List.mem_cons.mp h).resolve_left nofun)
    | header g => exact ih s hnodup hrest ((List.mem_cons.mp h).resolve_left nofun)
    | entry f' v' =>
      rw [List.filterMap_cons_some (by rfl : (Line.entry f' v').field? = some f'),
        List.nodup_cons] at hnodup
      rcases List.mem_cons.mp h with heq | hmem
      · cases heq
        exact (content_fill_of_notMem _ hnodup.1).trans
          (content_put_self (hfits f v List.mem_cons_self) s)
      · exact ih (s.put f' v') hnodup.2 hrest hmem

/-- One of two values. -/
def pick {α : Type} (new : Bool) (x y : α) : α := if new then x else y

/-- The settings `s` with the values of `c` for some keys. -/
def replace (keep : Field → Bool) (c s : Settings) : Settings where
  abi :=
    { frameSize := pick (keep .frameSize) c.abi.frameSize s.abi.frameSize
      slotSize := pick (keep .slotSize) c.abi.slotSize s.abi.slotSize
      argRegisters := pick (keep .argRegisters) c.abi.argRegisters s.abi.argRegisters
      overflowRegisters :=
        pick (keep .overflowRegisters) c.abi.overflowRegisters s.abi.overflowRegisters
      printHelper := pick (keep .printHelper) c.abi.printHelper s.abi.printHelper
      readHelper := pick (keep .readHelper) c.abi.readHelper s.abi.readHelper
      entry := pick (keep .entry) c.abi.entry s.abi.entry }
  output :=
    { extension := pick (keep .extension) c.output.extension s.output.extension
      dir := pick (keep .dir) c.output.dir s.output.dir }
  toolchain :=
    { compiler := pick (keep .compiler) c.toolchain.compiler s.toolchain.compiler
      flags := pick (keep .flags) c.toolchain.flags s.toolchain.flags
      runner := pick (keep .runner) c.toolchain.runner s.toolchain.runner }

theorem replace_all (c s : Settings) : replace (fun _ => true) c s = c := rfl

theorem content_replace (keep : Field → Bool) (c s : Settings) (f : Field) :
    (replace keep c s).content f = if keep f then c.content f else s.content f := by
  cases f <;> simp only [replace, content, pick] <;> split_ifs <;> rfl

/-! ### Excerpts of a file -/

/-- All keys. -/
def allFields : List Field :=
  [.frameSize, .slotSize, .argRegisters, .overflowRegisters, .printHelper, .readHelper, .entry,
    .extension, .dir, .compiler, .flags, .runner]

/-- What a key names. -/
def fieldOfKey? (key : List Char) : Option Field := allFields.find? (·.key.toList == key)

/-- Whether a line stays in an excerpt: a header does, a key if it is one of those to keep, and a
blank line if blank lines do. A key goes up to the first blank. -/
def keepsLine (blanks : Bool) (keep : Field → Bool) : List Char → Bool
  | [] => blanks
  | '[' :: _ => true
  | cs => (fieldOfKey? (cs.takeWhile (· != ' '))).any keep

/-- The lines of a text, each without its end. -/
def linesOf (cs : List Char) : List (List Char) := (Text.splitOn '\n' cs).dropLast

/-- A file with its headers and the lines of some keys only, and with or without blank lines. -/
def excerpt (blanks : Bool) (keep : Field → Bool) (text : String) : String :=
  String.ofList (joinLines ((linesOf text.toList).filter (keepsLine blanks keep)))

/-- Whether a line of a document stays in an excerpt. -/
def Line.kept (blanks : Bool) (keep : Field → Bool) : Line → Bool
  | .blank => blanks
  | .header _ => true
  | .entry f _ => keep f

/-! The lines of a document are the lines of its text, since no value holds the end of a line. -/

theorem newline_notMem_decimalChars (n : ℤ) : '\n' ∉ Text.decimalChars n :=
  fun h => absurd (Text.mem_decimalChars h) (by decide)

theorem isPlain_ne_newline {c : Char} (h : IsPlain c) : '\n' ≠ c := by
  rintro rfl
  obtain h | ⟨h, -⟩ := h
  · revert h
    decide
  · revert h
    decide

theorem newline_notMem_of_readDigits {ds : List Char} {acc n : ℕ}
    (h : Text.readDigits 16 acc ds = some n) : '\n' ∉ ds := by
  induction ds generalizing acc with
  | nil => exact List.not_mem_nil
  | cons d ds ih =>
    obtain ⟨x, hx, hrest⟩ := Option.bind_eq_some_iff.mp h
    refine List.not_mem_cons_of_ne_of_not_mem ?_ (ih hrest)
    rintro rfl
    have hnone : Text.digitBelow? 16 '\n' = none := by decide
    cases hnone.symm.trans hx

theorem newline_notMem_basicBody {body cs : List Char} (h : BasicBody body cs) :
    '\n' ∉ body := by
  induction h with
  | nil => exact List.not_mem_nil
  | plain hc _ _ _ ih => exact List.not_mem_cons_of_ne_of_not_mem (isPlain_ne_newline hc) ih
  | @escape e c _ _ he _ ih =>
    have hletters : ∀ ec ∈ escapes, '\n' ≠ ec.1 := by decide
    exact List.not_mem_cons_of_ne_of_not_mem (by decide)
      (List.not_mem_cons_of_ne_of_not_mem (hletters _ he) ih)
  | unicode hlength hdigits _ ih =>
    have hdigits := newline_notMem_of_readDigits hdigits
    obtain ⟨rfl, -⟩ | ⟨rfl, -⟩ := hlength
    · simp [hdigits, ih]
    · simp [hdigits, ih]

theorem newline_notMem_quoted {cs : List Char} {s : String} (h : Quoted cs s) : '\n' ∉ cs := by
  cases h with
  | literal h =>
    have hs : '\n' ∉ s.toList := fun hmem => isPlain_ne_newline (h _ hmem).1 rfl
    simp [hs]
  | basic h => simp [newline_notMem_basicBody h]

theorem newline_notMem_joinWith {items : List (List Char)} (h : ∀ item ∈ items, '\n' ∉ item) :
    '\n' ∉ Text.joinWith [',', ' '] items := by
  induction items with
  | nil => exact List.not_mem_nil
  | cons item items ih =>
    obtain ⟨hitem, hitems⟩ := List.forall_mem_cons.mp h
    cases items with
    | nil => exact hitem
    | cons item' items => simp [Text.joinWith, hitem, ih hitems]

theorem newline_notMem_denotes {cs : List Char} {v : Content} (h : Denotes cs v) : '\n' ∉ cs := by
  cases h with
  | number n => exact newline_notMem_decimalChars _
  | text h => exact newline_notMem_quoted h
  | texts h =>
    have hitems := (List.forall₂_and_left _ _).mp
      (h.imp fun _ _ hitem => (⟨newline_notMem_quoted hitem, hitem⟩ : _ ∧ Quoted _ _))
    simp [newline_notMem_joinWith hitems.1]

theorem newline_notMem_written {l : Line} {cs : List Char} (h : l.Written cs) : '\n' ∉ cs := by
  cases h with
  | blank => exact List.not_mem_nil
  | header g => cases g <;> decide
  | @entry f _ _ h =>
    have hkey : '\n' ∉ f.key.toList := by cases f <;> decide
    simp [hkey, newline_notMem_denotes h]

theorem linesOf_joinLines {ls : List (List Char)} (h : ∀ cs ∈ ls, '\n' ∉ cs) :
    linesOf (joinLines ls) = ls := by
  induction ls with
  | nil => rfl
  | cons cs ls ih =>
    obtain ⟨hcs, hls⟩ := List.forall_mem_cons.mp h
    have ih := ih hls
    unfold linesOf at ih ⊢
    rw [joinLines, List.flatMap_cons, List.append_assoc, List.singleton_append,
      Text.splitOn_append _ hcs, List.dropLast_cons_of_ne_nil (Text.splitOn_ne_nil _ _)]
    exact congrArg (cs :: ·) ih

/-! What stays of a line does not depend on how its value is written. -/

theorem fieldOfKey?_key (f : Field) : fieldOfKey? f.key.toList = some f := by
  cases f <;> decide

theorem takeWhile_key (f : Field) (cs : List Char) :
    (f.key.toList ++ ' ' :: cs).takeWhile (· != ' ') = f.key.toList := by
  have hkey : ∀ c ∈ f.key.toList, (c != ' ') = true := by cases f <;> decide
  rw [List.takeWhile_append_of_pos hkey]
  simp

theorem keepsLine_written {l : Line} {cs : List Char} (h : l.Written cs) (blanks : Bool)
    (keep : Field → Bool) : keepsLine blanks keep cs = l.kept blanks keep := by
  cases h with
  | blank => rfl
  | header g => rfl
  | @entry f _ _ h =>
    have hother : ∀ rest, keepsLine blanks keep (f.key.toList ++ rest) =
        (fieldOfKey? ((f.key.toList ++ rest).takeWhile (· != ' '))).any keep := by
      intro rest
      cases f <;> rfl
    rw [hother, takeWhile_key, fieldOfKey?_key]
    rfl

theorem forall₂_filter {blanks : Bool} {keep : Field → Bool} {doc : List Line}
    {ls : List (List Char)} (h : List.Forall₂ Line.Written doc ls) :
    List.Forall₂ Line.Written (doc.filter (Line.kept blanks keep))
      (ls.filter (keepsLine blanks keep)) := by
  induction h with
  | nil => exact .nil
  | cons hline _ ih =>
    rw [List.filter_cons, List.filter_cons, keepsLine_written hline]
    split_ifs
    · exact .cons hline ih
    · exact ih

/-- **An excerpt of the text of a document** is the text of the document with the lines that are
kept. -/
theorem isText_excerpt {doc : List Line} {text : String} (h : IsText doc text) (blanks : Bool)
    (keep : Field → Bool) :
    IsText (doc.filter (Line.kept blanks keep)) (excerpt blanks keep text) := by
  obtain ⟨ls, hls, htext⟩ := h
  have hlines := ((List.forall₂_and_left ls doc).mp
    (hls.flip.imp fun _ _ hline => (⟨newline_notMem_written hline, hline⟩ : _ ∧ _))).1
  refine ⟨ls.filter (keepsLine blanks keep), forall₂_filter hls, ?_⟩
  rw [excerpt, String.toList_ofList, htext, linesOf_joinLines hlines]

theorem UnderHeaders.filter {blanks : Bool} {keep : Field → Bool} {doc : List Line}
    {current : Option SettingGroup} (h : UnderHeaders current doc) :
    UnderHeaders current (doc.filter (Line.kept blanks keep)) := by
  induction doc generalizing current with
  | nil => exact trivial
  | cons l doc ih =>
    rw [List.filter_cons]
    cases l with
    | blank =>
      split_ifs
      · exact ih h
      · exact ih h
    | header g => exact ih h
    | entry f v =>
      split_ifs
      · exact ⟨h.1, ih h.2⟩
      · exact ih h.2

theorem WellFormed.filter {doc : List Line} (h : WellFormed doc) (blanks : Bool)
    (keep : Field → Bool) : WellFormed (doc.filter (Line.kept blanks keep)) where
  headers := h.headers.sublist (List.filter_sublist.filterMap _)
  fields := h.fields.sublist (List.filter_sublist.filterMap _)
  under := h.under.filter
  fits f v hmem := h.fits f v (List.mem_filter.mp hmem).1

/-- The lines of some keys of settings put the values of these keys in place. -/
theorem fill_filter {doc : List Line} {c : Settings} (h : WellFormed doc)
    (hdoc : ∀ f v, .entry f v ∈ doc ↔ v = c.content f) (blanks : Bool) (keep : Field → Bool)
    (s : Settings) : s.fill (doc.filter (Line.kept blanks keep)) = replace keep c s := by
  have hkept := h.filter blanks keep
  refine eq_of_content fun f => ?_
  rw [content_replace]
  split_ifs with hf
  · refine content_fill_of_mem s hkept.fields hkept.fits (List.mem_filter.mpr ⟨?_, hf⟩)
    exact (hdoc f _).mpr rfl
  · refine content_fill_of_notMem s fun hmem => ?_
    obtain ⟨l, hl, hfield⟩ := List.mem_filterMap.mp hmem
    obtain ⟨-, hkeep⟩ := List.mem_filter.mp hl
    cases l with
    | blank => cases hfield
    | header g => cases hfield
    | entry f' v =>
      cases hfield
      exact hf hkeep

end RvBackend.Settings
