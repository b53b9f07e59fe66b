import RvBackend.Asm.Program
import RvBackend.Output.Sink

/-! # Printing programs

A program is printed in pieces, one after the other. A `Printer` remembers that a piece did not fit,
and prints nothing from then on. An operand is looked at before it is printed, so one that names
nothing ends the printing wherever it stands, also behind a piece that did not fit.

* `Program.printTo` prints a program to a sink; what it prints is the text of `Program.text?`. -/

namespace RvBackend.Asm

/-- A sink that pieces of text are printed to. -/
structure Printer where
  sink : Sink
  /-- Whether a piece did not fit. -/
  full : Bool := false

/-- Prints a piece, unless an earlier one did not fit. -/
def Printer.print (w : Printer) (piece : String) : Printer :=
  if w.full then w
  else
    let (sink, fits) := w.sink.write piece
    { sink, full := !fits }

/-- Steps that print. They have no result if an operand names nothing. -/
abbrev Printing := OptionT (StateM Printer)

/-- Prints a piece. -/
def piece (text : String) : Printing Unit := modify (·.print text)

/-- Prints an operand behind some text. -/
def Operand.print (lead : String) (o : Operand) : Printing Unit :=
  match o.text? with
  | some text => piece (lead ++ text)
  | none => failure

/-- Prints the operands of an instruction. -/
def printOperands : List Operand → Printing Unit
  | [] => return
  | o :: os => do
    o.print " "
    os.forM (Operand.print ", ")

/-- Prints what a line holds besides its comment. -/
def Content.print : Content → Printing Unit
  | .blank => return
  | .label name => piece (name ++ ":")
  | .op mnemonic operands => do
    piece ("    " ++ mnemonic)
    printOperands operands

/-- Prints the comment of a line, if it has one. -/
def Line.printComment (l : Line) : Printing Unit :=
  if l.comment = "" then return
  else piece ((if l.content = .blank then "// " else "  // ") ++ l.comment)

/-- Prints a line with its end. -/
def Line.print (l : Line) : Printing Unit := do
  l.content.print
  l.printComment
  piece "\n"

/-- Prints whether other files see a function. -/
def Function.printScope (f : Function) : Printing Unit :=
  if f.isGlobal then piece ("    .globl " ++ f.name ++ "\n") else return

/-- Prints a function. -/
def Function.print (f : Function) : Printing Unit := do
  piece ".section    .text\n"
  piece "    .align 2\n"
  f.printScope
  piece ("    .type " ++ f.name ++ ", @function\n")
  piece (f.name ++ ":\n")
  f.lines.forM Line.print

/-- Prints the room for a global variable. -/
def GlobalVariable.print (g : GlobalVariable) : Printing Unit := piece g.text

/-- Prints a global constant. -/
def GlobalConstant.print (c : GlobalConstant) : Printing Unit := do
  piece ".section    .rodata\n"
  piece "    .align 2\n"
  piece ("    .globl " ++ c.label ++ "\n")
  piece ("    .type " ++ c.label ++ ", @object\n")
  piece (c.label ++ ":\n")
  piece ("    .word " ++ Text.decimal c.value ++ "\n")

/-- Prints a program. -/
def Program.print (p : Program) : Printing Unit := do
  piece ("    .file \"" ++ Text.escapeText p.file ++ "\"\n")
  piece "    .option nopic\n"
  p.globals.forM GlobalVariable.print
  p.constants.forM GlobalConstant.print
  p.functions.forM Function.print

/-- Why a program is not, or not wholly, printed. -/
inductive PrintError where
  /-- An operand names nothing. -/
  | unprintable
  | full
deriving DecidableEq, Repr

/-- Prints a program to a sink. -/
def Program.printTo (p : Program) (sink : Sink) : Except PrintError Unit × Sink :=
  let (finished, w) := p.print.run { sink }
  let outcome :=
    match finished with
    | none => .error .unprintable
    | some () => if w.full then .error .full else .ok ()
  (outcome, w.sink)

end RvBackend.Asm
