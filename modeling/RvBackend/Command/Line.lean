import RvBackend.Command.Verify

/-! # Command lines

`runLine` carries out a command line: it finds the command, reads the flags, checks the number of
arguments, loads the settings and does the work. An error is printed, and the line then ends with
status 1. -/

namespace RvBackend.Command

variable {m : Type → Type} [Monad m] [Host m]

/-- The settings in a file; without a file, the default ones. -/
def loadSettings (file : String) : Action m Settings := do
  if file.isEmpty then return {}
  let bytes ← orFail .settingsFile (← Host.readFile file)
  orFail (.settings file) (Settings.load bytes)

/-- Checks the number of arguments that a command is given. -/
def checkArguments (v : Verb) (args : List String) : Except CommandError Unit :=
  match v with
  | .gen | .run | .build | .config =>
    if args.length = 1 then .ok () else .error (.notOneArgument args.length)
  | .verify => if args.length ≤ 1 then .ok () else .error (.manyArguments args.length)
  | .completion | .help => .ok ()

/-- The work of a command. -/
def perform (v : Verb) (choices : Choices) (args : List String) : Action m Unit := do
  let settings ← loadSettings choices.config
  let s : Session :=
    { settings
      logLevel := if choices.verbose then .debug else .info
      maxSteps := choices.maxSteps }
  let arg := args.headD ""
  match v with
  | .gen =>
    let _ ← s.generate arg choices.output
  | .run =>
    let (printed, outcome) ← s.simulate arg (← Host.readInput)
    Host.print printed
    orFail id outcome
  | .config =>
    orFail .savedSettings (← Host.writeFile arg (Settings.library.write settings))
    Host.print ("Wrote " ++ arg ++ "\n")
  | .build =>
    let executable ← s.build arg choices.output choices.keep
    Host.print ("Built " ++ executable ++ "\n")
  | .verify => verify s choices.native (args.headD "tests")
  | .completion | .help => return

/-- Carries out a command line, up to the report of an error. -/
def carryOut (args : List String) : Action m Unit := do
  let (verb, args) ← orFail .unknownVerb (Verb.find args)
  match verb with
  | none =>
    let _ ← orFail .flags (Flag.parse (.help :: Verb.sharedFlags) args)
  | some v =>
    let (choices, args) ← orFail .flags (Flag.parse v.flags args)
    unless choices.help || v.isInformation do
      orFail id (checkArguments v args)
      perform v choices args

/-- Carries out a command line and gives its status. -/
def runLine (args : List String) : m Nat := do
  match ← (carryOut args : Action m Unit).run with
  | .ok _ => return 0
  | .error e =>
    Host.printError ("error: " ++ e.message ++ "\n")
    return 1

end RvBackend.Command
