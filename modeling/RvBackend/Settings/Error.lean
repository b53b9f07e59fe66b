import RvBackend.Settings.Basic
import RvBackend.Toml.Date

/-! # Why a file gives no settings

A file may be malformed, or its settings may have problems. A few faults break the reading down;
these are told apart from those of a file that is merely malformed.

* `SettingsError.message` is the wording of an error, `Breakdown.message?` that of a breakdown. -/

namespace RvBackend

/-- The groups of settings. -/
inductive SettingGroup where
  | abi
  | output
  | toolchain
deriving DecidableEq, Repr

/-- What a key can hold. -/
inductive SettingKind where
  | number
  | text
  | texts
  | group (g : SettingGroup)
deriving DecidableEq, Repr

/-- The name of a kind of setting. -/
def SettingKind.name : SettingKind → String
  | .number => "int"
  | .text => "string"
  | .texts => "[]string"
  | .group .abi => "config.ABI"
  | .group .output => "config.Output"
  | .group .toolchain => "config.Toolchain"

/-- The name of a form of dates. -/
def dateFormName : Toml.DateForm → String
  | .date => "toml.LocalDate"
  | .time => "toml.LocalTime"
  | .dateTime => "toml.LocalDateTime"
  | .instant => "time.Time"

/-- A fault in a file that breaks the reading down. -/
inductive Breakdown where
  /-- A header goes on behind the key of a value. -/
  | headerBelowValue
  /-- A header for an empty list, whose key is written with escapes. -/
  | escapedList
  /-- The header of an array of tables goes on behind the key of an empty list. -/
  | noLastItem
  /-- A date for a key of another kind. -/
  | date (form : Toml.DateForm) (kind : SettingKind)
deriving DecidableEq, Repr

/-- The wording of a breakdown, if it has one. -/
def Breakdown.message? : Breakdown → Option String
  | .headerBelowValue => none
  | .escapedList => none
  | .noLastItem => some "reflect: slice index out of range"
  | .date form kind =>
    some ("reflect.Set: value of type " ++ dateFormName form ++ " is not assignable to type " ++
      kind.name)

/-- Why a file gives no settings. -/
inductive SettingsError where
  /-- The text is not well-formed, or a value is of another type than its key. -/
  | malformed
  | breakdown (b : Breakdown)
  | invalid (ps : List Problem)
deriving DecidableEq, Repr

/-- The wording for a file with a name. -/
def SettingsError.message (file : String) : SettingsError → String
  | .malformed => "failed to parse config file " ++ file ++ ": ..."
  | .breakdown b => "failed to parse config file " ++ file ++ ": " ++ b.message?.getD "..."
  | .invalid ps => "invalid config file " ++ file ++ ": " ++ problemsText ps

end RvBackend
