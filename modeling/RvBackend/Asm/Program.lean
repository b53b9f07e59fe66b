import RvBackend.Asm.Line
import RvBackend.Text.Escape

/-! # Assembly programs

A program names its source file, reserves its global variables, defines its global constants and
then its functions. `Program.text?` prints it for an assembler; a program with an operand that names
nothing has no printed form. -/

namespace RvBackend.Asm

/-- A global variable: some bytes under a label. -/
structure GlobalVariable where
  label : String
  size : Int := 4
  align : Int := 4
deriving DecidableEq, Repr

/-- A global constant: one word under a label. -/
structure GlobalConstant where
  label : String
  value : Int
deriving DecidableEq, Repr

/-- The code of a function. -/
structure Function where
  name : String
  /-- Whether other files see the function. -/
  isGlobal : Bool := false
  lines : List Line := []
deriving DecidableEq, Repr

/-- An assembly program. -/
structure Program where
  file : String := ""
  globals : List GlobalVariable := []
  constants : List GlobalConstant := []
  functions : List Function := []
deriving DecidableEq, Repr

/-- Room for a global variable. -/
def GlobalVariable.text (g : GlobalVariable) : String :=
  ".comm " ++ g.label ++ ", " ++ Text.decimal g.size ++ ", " ++ Text.decimal g.align ++ "\n"

/-- A global constant in the read-only section. -/
def GlobalConstant.text (c : GlobalConstant) : String :=
  ".section    .rodata\n    .align 2\n    .globl " ++ c.label ++ "\n    .type " ++ c.label ++
    ", @object\n" ++ c.label ++ ":\n    .word " ++ Text.decimal c.value ++ "\n"

/-- A function: its directives, its label and its lines. -/
def Function.text? (f : Function) : Option String := do
  let globl := if f.isGlobal then "    .globl " ++ f.name ++ "\n" else ""
  let lines ← f.lines.mapM Line.text?
  return ".section    .text\n    .align 2\n" ++ globl ++ "    .type " ++ f.name ++
    ", @function\n" ++ f.name ++ ":\n" ++ String.join lines

/-- A program as it is printed. -/
def Program.text? (p : Program) : Option String := do
  let functions ← p.functions.mapM Function.text?
  return "    .file \"" ++ Text.escapeText p.file ++ "\"\n    .option nopic\n" ++
    String.join (p.globals.map GlobalVariable.text) ++
    String.join (p.constants.map GlobalConstant.text) ++ String.join functions

end RvBackend.Asm
