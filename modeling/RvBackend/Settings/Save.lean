import RvBackend.Settings.Basic
import RvBackend.Text.Escape

/-! # Settings as a file

`Settings.text` writes all settings in TOML, section by section. A text stands in single quotes; one
that cannot, since it holds a single quote or a control character, stands in double quotes with
escapes. -/

namespace RvBackend.Settings

/-- Characters that cannot stand in single quotes. -/
def needsEscape (c : Char) : Bool :=
  c = '\'' || (c.toNat < 0x20 && c ≠ '\t') || c.toNat = 0x7f

/-- One character in double quotes. -/
def escapeChar (c : Char) : List Char :=
  match c with
  | '\\' => ['\\', '\\']
  | '"' => ['\\', '"']
  | '\x08' => ['\\', 'b']
  | '\x0c' => ['\\', 'f']
  | '\n' => ['\\', 'n']
  | '\r' => ['\\', 'r']
  | '\t' => ['\\', 't']
  | c =>
    if c.toNat < 0x20 || c.toNat = 0x7f then
      ['\\', 'u', '0', '0', Text.upperHexDigit (c.toNat / 16), Text.upperHexDigit (c.toNat % 16)]
    else [c]

/-- A text in quotes. -/
def quoteText (s : String) : String :=
  if s.any needsEscape then "\"" ++ String.ofList (s.toList.flatMap escapeChar) ++ "\""
  else "'" ++ s ++ "'"

/-- A list of texts. -/
def quoteTexts (items : List String) : String :=
  "[" ++ ", ".intercalate (items.map quoteText) ++ "]"

/-- One line with a key and its value. -/
def fieldLine (key value : String) : String := key ++ " = " ++ value ++ "\n"

/-- The settings as a file. -/
def text (s : Settings) : String :=
  "[abi]\n" ++
  fieldLine "frame_size" (Text.decimal s.abi.frameSize.toInt) ++
  fieldLine "slot_size" (Text.decimal s.abi.slotSize.toInt) ++
  fieldLine "arg_registers" (quoteTexts s.abi.argRegisters) ++
  fieldLine "overflow_registers" (quoteTexts s.abi.overflowRegisters) ++
  fieldLine "print_helper" (quoteText s.abi.printHelper) ++
  fieldLine "read_helper" (quoteText s.abi.readHelper) ++
  fieldLine "entry" (quoteText s.abi.entry) ++
  "\n[output]\n" ++
  fieldLine "extension" (quoteText s.output.extension) ++
  fieldLine "dir" (quoteText s.output.dir) ++
  "\n[toolchain]\n" ++
  fieldLine "cc" (quoteText s.toolchain.compiler) ++
  fieldLine "cflags" (quoteTexts s.toolchain.flags) ++
  fieldLine "run" (quoteTexts s.toolchain.runner)

end RvBackend.Settings
