import RvBackend.Settings.Error

/-! # Settings in a file

Settings are kept in a file, as TOML, by a library that writes and reads such files. A file need not
have all keys: what it lacks stays as it is.

* `Library.load` gives the settings of a file. -/

namespace RvBackend.Settings

/-- What a library does that keeps settings in files. -/
structure Library where
  /-- The text of a file with all settings. -/
  write : Settings → String
  /-- Settings with the values that a file has in place of their own. -/
  read : List UInt8 → Settings → Except SettingsError Settings

/-- The default settings with the values of a file in place of their own; they must be without
problems. -/
def Library.load (lib : Library) (bytes : List UInt8) : Except SettingsError Settings := do
  let s ← lib.read bytes {}
  if s.problems.isEmpty then return s else throw (.invalid s.problems)

end RvBackend.Settings
