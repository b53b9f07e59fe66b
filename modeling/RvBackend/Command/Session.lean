import RvBackend.Asm.Support
import RvBackend.Command.Error
import RvBackend.Settings.Save
import RvBackend.Text.Path
import RvBackend.Tree.Decode

/-! # The work of the commands

A `Session` holds the settings and choices that a command works with.

* `Session.generate` writes the assembly of a program to a file or prints it.
* `Session.simulate` runs a program on the machine.
* `Session.build` links a program with the support routines. -/

namespace RvBackend.Command

/-- An action that may fail. -/
abbrev Action (m : Type → Type) := ExceptT CommandError m

variable {m : Type → Type} [Monad m] [Host m]

instance {ε : Type} : Host (ExceptT ε m) where
  readFile path := (Host.readFile path : m _)
  createFile path := (Host.createFile path : m _)
  fillFile path text := (Host.fillFile path text : m _)
  writeFile path text := (Host.writeFile path text : m _)
  removeFile path := (Host.removeFile path : m _)
  exists? path := (Host.exists? path : m _)
  filesBelow path := (Host.filesBelow path : m _)
  readInput := (Host.readInput : m _)
  print text := (Host.print text : m _)
  printError text := (Host.printError text : m _)
  call name args := (Host.call name args : m _)

/-- The value of a result; an error is given its cause. -/
def orFail {ε α : Type} (cause : ε → CommandError) (result : Except ε α) : Action m α :=
  match result with
  | .ok a => pure a
  | .error e => throw (cause e)

/-- What a command works with. -/
structure Session where
  settings : Settings := {}
  logLevel : LogLevel := .info
  maxSteps : Int := 10000000

namespace Session

/-- Writes records to the log. -/
def log (s : Session) (records : List LogRecord) : Action m Unit :=
  Host.printError (logText s.logLevel records)

/-- The program in a file. A program that does not tell its file takes the name of this one. -/
def load (s : Session) (path : String) : Action m Program := do
  let bytes ← orFail (.ofSource path) (← Host.readFile path)
  let p ← orFail (.source path) (Program.decode bytes)
  let p := if p.file.isEmpty then { p with file := Text.baseName path } else p
  s.log [⟨.debug, "loaded program",
    [("path", path), ("name", p.name), ("functions", Text.decimal p.functions.length)]⟩]
  return p

/-- The assembly text of a program. -/
def assembly (s : Session) (p : Program) : Action m String := do
  let made := Lower.emit s.settings.abi p {}
  s.log made.log
  orFail .code made.outcome
  return made.sink.text

/-- Prints the assembly of the program in a file. -/
def printAssembly (s : Session) (source : String) : Action m Unit := do
  let p ← s.load source
  Host.print (← s.assembly p)

/-- The file that the assembly of the program in a file is written to. -/
def outputPath (s : Session) (source dir : String) : String :=
  Text.outputPath source (if dir.isEmpty then s.settings.output.dir else dir)
    s.settings.output.extension

/-- The assembly text of a program for a file that has been made. The file is removed if there is no
text; a breakdown leaves it behind. -/
def assemblyFor (s : Session) (path : String) (p : Program) : Action m String :=
  tryCatch (s.assembly p) fun e => do
    if !e.isBreakdown then Host.removeFile path
    throw e

/-- Writes the assembly of the program in a file to a file in a directory, and gives the path of
that file. The file is made before the code is. -/
def compile (s : Session) (source dir : String) : Action m String := do
  let p ← s.load source
  let path := s.outputPath source dir
  orFail (.outputFile path) (← Host.createFile path)
  let text ← s.assemblyFor path p
  orFail (.outputText path) (← Host.fillFile path text)
  s.log [⟨.info, "wrote assembly", [("path", path)]⟩]
  return path

/-- The standard output in place of a directory. -/
def standardOutput : String := "-"

/-- Writes the assembly of the program in a file to a file in a directory and gives the path of that
file, or prints it and gives no path if the directory stands for the standard output. -/
def generate (s : Session) (source dir : String) : Action m String := do
  if dir = standardOutput then
    s.printAssembly source
    return ""
  else s.compile source dir

/-- Runs the program in a file on an input and gives what it printed, also when it fails later. -/
def simulate (s : Session) (source : String) (input : List UInt8) :
    Action m (String × Except CommandError Unit) := do
  let p ← s.load source
  let text ← s.assembly p
  match Machine.Listing.parse text with
  | .error e => return ("", .error (.simulation source (.listing e)))
  | .ok code =>
    let abi := s.settings.abi
    let options := Machine.Options.ofParts abi.entry abi.printHelper abi.readHelper s.maxSteps
    let run :=
      Machine.run options code (.initial code (.text (Text.charsOfBytes input)) {})
    let printed := run.state.output.text
    match run.outcome with
    | .error e => return (printed, .error (.simulation source (.run e)))
    | .ok exit =>
      s.log [⟨.debug, "simulation finished",
        [("steps", Text.decimal run.steps), ("exit", Text.decimal exit.result.toInt),
          ("stack_balanced", if exit.balanced then "true" else "false")]⟩]
      return (printed, if exit.balanced then .ok () else .error (.unbalanced source))

/-- Calls a program, which must end well, and gives what it printed. -/
def call (name : String) (args : List String) (cause : CallFault → String → CommandError) :
    Action m String := do
  match ← Host.call name args with
  | .error e => throw (cause (.notStarted e) "")
  | .ok done =>
    if done.status = 0 then return done.output
    else throw (cause (.status done.status) done.output)

/-- The executable for a source when none is named. -/
def executableFor (source : String) : String :=
  let stem := Text.withoutSuffix source (Text.extension source)
  if stem = source then source ++ ".elf" else stem

/-- Links an assembly file with the support routines, which are in a file as well. -/
def link (s : Session) (executable assemblyFile supportFile : String) : Action m Unit := do
  let tools := s.settings.toolchain
  let args := tools.flags ++ ["-o", executable, assemblyFile, supportFile]
  s.log [⟨.debug, "invoking cross compiler",
    [("cc", tools.compiler), ("args", LogRecord.listText args)]⟩]
  let _ ← call tools.compiler args (.linking tools.compiler)

/-- Writes the assembly of the program in a file for a build. A build has no standard output, so
there is no file if the directory stands for it. -/
def compileForBuild (s : Session) (source dir : String) : Action m String := do
  if dir = standardOutput then
    let p ← s.load source
    let _ ← s.assembly p
    throw .noOutput
  else s.compile source dir

/-- Makes an executable of the program in a file and gives its path. The files on the way to it are
removed unless they are to be kept. -/
def build (s : Session) (source executable : String) (keep : Bool) : Action m String := do
  let executable := if executable.isEmpty then executableFor source else executable
  let dir := Text.dirName executable
  let assemblyFile ← s.compileForBuild source dir
  let supportFile := Text.joinPath dir ("lin_runtime" ++ s.settings.output.extension)
  orFail .supportFile (← Host.writeFile supportFile (Asm.supportText s.settings.abi))
  let clean : Action m Unit := do
    unless keep do
      Host.removeFile supportFile
      Host.removeFile assemblyFile
  tryCatch (s.link executable assemblyFile supportFile) fun e => do
    clean
    throw e
  clean
  return executable

end Session

end RvBackend.Command
