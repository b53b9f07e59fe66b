import RvBackend.Settings.Library
import RvBackend.Settings.Save
import RvBackend.Text.Case
import RvBackend.Text.Utf8
import RvBackend.Toml.Reader
import RvBackend.Toml.Tracker

/-! # Settings from a file

A file changes settings key by key. Keys are compared without regard to case, unknown keys and
tables are passed over, and a known key must have a value of its type. Each expression takes effect
before the next one is read, so of two faults the earlier one counts.

* `Settings.parse` reads the text of a file over other settings.
* `Settings.library` writes and reads files, and `Settings.load` gives the settings of one. -/

namespace RvBackend

namespace Settings

/-- What a key names. -/
inductive Field where
  | frameSize
  | slotSize
  | argRegisters
  | overflowRegisters
  | printHelper
  | readHelper
  | entry
  | extension
  | dir
  | compiler
  | flags
  | runner
deriving DecidableEq, Repr

/-- Where a key leads. -/
inductive Place where
  | group (g : SettingGroup)
  | field (f : Field)
  /-- Some parts of the key are left behind a field. -/
  | below (f : Field)
  | unknown
deriving DecidableEq, Repr

/-- The group with that name. -/
def groupOfName? : String → Option SettingGroup
  | "abi" => some .abi
  | "output" => some .output
  | "toolchain" => some .toolchain
  | _ => none

/-- The fields of a group by their names. -/
def fieldsOf : SettingGroup → List (String × Field)
  | .abi =>
    [("frame_size", .frameSize), ("slot_size", .slotSize), ("arg_registers", .argRegisters),
      ("overflow_registers", .overflowRegisters), ("print_helper", .printHelper),
      ("read_helper", .readHelper), ("entry", .entry)]
  | .output => [("extension", .extension), ("dir", .dir)]
  | .toolchain => [("cc", .compiler), ("cflags", .flags), ("run", .runner)]

/-- Where a key leads. -/
def place : Toml.Key → Place
  | [] => .unknown
  | name :: rest =>
    match groupOfName? (Text.lower name) with
    | none => .unknown
    | some g =>
      match rest with
      | [] => .group g
      | part :: rest =>
        match (fieldsOf g).lookup (Text.lower part) with
        | none => .unknown
        | some f => if rest.isEmpty then .field f else .below f

/-! ### Values -/

/-- The digits of a number without underscores, which must stand between digits. -/
def dropUnderscores (ds : List Char) : Option (List Char) :=
  let body := (Text.readSign ds).2
  let doubled := (ds.zip (ds.drop 1)).any fun (a, b) => a == '_' && b == '_'
  if body.head? == some '_' || body.getLast? == some '_' || doubled then none
  else some (ds.filter (· != '_'))

/-- A number in base ten; only the number zero begins with a zero. -/
def decimalValue (ds : List Char) : Option Int :=
  match (Text.readSign ds).2 with
  | '0' :: _ :: _ => none
  | _ => Text.readInt64 ds

/-- The number of some digits in a base. -/
def basedValue (base : Nat) (ds : List Char) : Option Int := do
  let ds ← dropUnderscores ds
  if ds.isEmpty then none
  let n ← Text.readDigits base 0 ds
  if n < Text.wordCount 63 then some n else none

/-- The number that an integer stands for, in 64 bits. -/
def integerValue : List Char → Option Int
  | '0' :: 'x' :: d :: ds => basedValue 16 (d :: ds)
  | '0' :: 'o' :: d :: ds => basedValue 8 (d :: ds)
  | '0' :: 'b' :: d :: ds => basedValue 2 (d :: ds)
  | ds => (dropUnderscores ds).bind decimalValue

/-- The error of a value for a key of another kind. A date that is right breaks the reading down. -/
def mismatch (kind : SettingKind) : Toml.Value → SettingsError
  | .date form word => if form.accepts word then .breakdown (.date form kind) else .malformed
  | _ => .malformed

/-- The value as a number. -/
def asInteger : Toml.Value → Except SettingsError Int64
  | .integer ds => (integerValue ds).elim (.error .malformed) fun n => .ok (Int64.ofInt n)
  | v => .error (mismatch .number v)

/-- The value as a text. -/
def asText : Toml.Value → Except SettingsError String
  | .text s => .ok s
  | v => .error (mismatch .text v)

/-- The value as a list of texts. -/
def asTexts : Toml.Value → Except SettingsError (List String)
  | .array items => items.mapM asText
  | v => .error (mismatch .texts v)

/-- The settings with another value of a field. -/
def setField (s : Settings) (f : Field) (v : Toml.Value) : Except SettingsError Settings :=
  match f with
  | .frameSize => (asInteger v).map fun n => { s with abi.frameSize := n }
  | .slotSize => (asInteger v).map fun n => { s with abi.slotSize := n }
  | .argRegisters => (asTexts v).map fun rs => { s with abi.argRegisters := rs }
  | .overflowRegisters => (asTexts v).map fun rs => { s with abi.overflowRegisters := rs }
  | .printHelper => (asText v).map fun name => { s with abi.printHelper := name }
  | .readHelper => (asText v).map fun name => { s with abi.readHelper := name }
  | .entry => (asText v).map fun name => { s with abi.entry := name }
  | .extension => (asText v).map fun e => { s with output.extension := e }
  | .dir => (asText v).map fun d => { s with output.dir := d }
  | .compiler => (asText v).map fun c => { s with toolchain.compiler := c }
  | .flags => (asTexts v).map fun fs => { s with toolchain.flags := fs }
  | .runner => (asTexts v).map fun ws => { s with toolchain.runner := ws }

/-- The texts of a field that holds a list. -/
def list? (s : Settings) : Field → Option (List String)
  | .argRegisters => some s.abi.argRegisters
  | .overflowRegisters => some s.abi.overflowRegisters
  | .flags => some s.toolchain.flags
  | .runner => some s.toolchain.runner
  | _ => none

/-! ### Expressions -/

/-- A key with a value that is no inline table. -/
def assignPlain (s : Settings) (key : Toml.Key) (v : Toml.Value) : Except SettingsError Settings :=
  match place key with
  | .unknown => .ok s
  | .field f => s.setField f v
  | .group g => .error (mismatch (.group g) v)
  | .below _ => .error .malformed

mutual

/-- A key with its value. The members of an inline table for a group are keys of that group. -/
def assign (s : Settings) (key : Toml.Key) : Toml.Value → Except SettingsError Settings
  | .table members =>
    match place key with
    | .unknown => .ok s
    | .group _ => assignMembers s key members
    | _ => .error .malformed
  | v => s.assignPlain key v

/-- Members of an inline table one by one. -/
def assignMembers (s : Settings) (base : Toml.Key) :
    List (Toml.Key × Toml.Value) → Except SettingsError Settings
  | [] => .ok s
  | (key, v) :: rest => do
    let s ← assign s (base ++ key) v
    assignMembers s base rest

end

/-- A table header. One for a list stands for the last item of the list, which must be there. The
second part of the key names the list. -/
def enterTable (s : Settings) (parts : List Toml.KeyPart) : Except SettingsError Unit :=
  let check (f : Field) (otherwise : Except SettingsError Unit) : Except SettingsError Unit :=
    if (s.list? f).any (·.isEmpty) then
      .error (if parts[1]?.any (·.escaped) then .breakdown .escapedList else .malformed)
    else otherwise
  match place (Toml.keyOf parts) with
  | .field f => check f (.ok ())
  | .below f => check f (.error (.breakdown .headerBelowValue))
  | _ => .ok ()

/-- The header of one more table of an array. One for a list adds an empty text to the list; the
first such header empties the list before. -/
def enterArrayTable (s : Settings) (key : Toml.Key) (first : Bool) :
    Except SettingsError Settings :=
  match place key with
  | .unknown => .ok s
  | .group _ => .error .malformed
  | .below f =>
    .error (.breakdown (if s.list? f = some [] then .noLastItem else .headerBelowValue))
  | .field f =>
    match s.list? f with
    | none => .error .malformed
    | some items =>
      let items := (if first then [] else items) ++ [""]
      s.setField f (.array (items.map .text))

/-- The settings while a file is read. -/
structure Reading where
  settings : Settings
  tracker : Toml.Tracker := {}
  /-- Whether the current table is unknown, so that its keys are passed over. -/
  skipping : Bool := false

/-- One expression of a file. -/
def Reading.step (r : Reading) : Toml.Expression → Except SettingsError Reading
  | .assign key v => do
    if r.skipping then return r
    let base := r.tracker.current
    match r.tracker.assign key with
    | none => throw .malformed
    | some tracker =>
      unless v.isConsistent do throw .malformed
      return { r with settings := ← r.settings.assign (base ++ key) v, tracker }
  | .table parts => do
    let key := Toml.keyOf parts
    match r.tracker.table key with
    | none => throw .malformed
    | some tracker =>
      r.settings.enterTable parts
      return { r with tracker, skipping := place key = .unknown }
  | .arrayTable key => do
    match r.tracker.arrayTable key with
    | none => throw .malformed
    | some (tracker, first) =>
      let settings ← r.settings.enterArrayTable key first
      return { settings, tracker, skipping := place key = .unknown }

/-- Settings with the values of a text in place of their own. -/
def parse (base : Settings) (text : List Char) : Except SettingsError Settings := do
  let contents := Toml.parse text
  let r ← contents.expressions.foldlM Reading.step { settings := base }
  if contents.faulty then throw .malformed else return r.settings

/-- Files are written key by key, and read as TOML. -/
def library : Library where
  write := text
  read bytes base := parse base (Text.charsOfBytes bytes)

/-- The settings of a file; they must be without problems. -/
def load (bytes : List UInt8) : Except SettingsError Settings := library.load bytes

end Settings

end RvBackend
