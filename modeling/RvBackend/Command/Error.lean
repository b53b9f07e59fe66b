import RvBackend.Command.Host
import RvBackend.Command.Verb
import RvBackend.Lower.Emit
import RvBackend.Machine.Run
import RvBackend.Settings.Load
import RvBackend.Tree.Node

/-! # Why commands fail

`CommandError` has one constructor for each cause, and `CommandError.message` gives its wording. -/

namespace RvBackend.Command

/-- Why a program that was called did not do its work. -/
inductive CallFault where
  | notStarted (e : StartError)
  | status (n : Nat)
deriving DecidableEq, Repr

/-- The wording of a call's fault. -/
def CallFault.message : CallFault → String
  | .notStarted e => e.message
  | .status n => "exit status " ++ Text.decimal n

/-- Why a program cannot be simulated to its end. -/
inductive SimulationFault where
  | listing (e : Machine.ParseError)
  | run (e : Machine.RunError)
deriving DecidableEq, Repr

/-- The wording of a simulation's fault. -/
def SimulationFault.message : SimulationFault → String
  | .listing e => e.message
  | .run e => e.message

/-- Why a command fails. -/
inductive CommandError where
  | unknownVerb (name : String)
  | flags (e : FlagError)
  | notOneArgument (received : Nat)
  | manyArguments (received : Nat)
  | settingsFile (e : FileError)
  | settings (file : String) (e : SettingsError)
  | sourceFile (e : FileError)
  /-- The source can be opened but not read. -/
  | sourceText (path : String) (e : FileError)
  | source (path : String) (e : DecodeError)
  | outputFile (path : String) (e : FileError)
  /-- The output has been opened, but cannot be written to or closed. -/
  | outputText (path : String) (e : FileError)
  /-- There is nothing that the assembly could be written to. -/
  | noOutput
  | code (e : Lower.EmitError)
  | simulation (path : String) (e : SimulationFault)
  | unbalanced (path : String)
  | savedSettings (e : FileError)
  | supportFile (e : FileError)
  | linking (compiler : String) (fault : CallFault) (output : String)
  | noRunner
  | running (fault : CallFault)
  | discovery (e : FileError)
  | failedTests (failed total : Nat)

/-- Why a source has no text: it cannot be opened, or opened but not read. -/
def CommandError.ofSource (path : String) (e : FileError) : CommandError :=
  if e.step = .openFile then .sourceFile e else .sourceText path e

/-- The wording of a command error. -/
def CommandError.message : CommandError → String
  | .unknownVerb name => Verb.unknownMessage name
  | .flags e => e.message
  | .notOneArgument n => "accepts 1 arg(s), received " ++ Text.decimal n
  | .manyArguments n => "accepts at most 1 arg(s), received " ++ Text.decimal n
  | .settingsFile e => "failed to read config file: " ++ e.message
  | .settings file e => e.message file
  | .sourceFile e => "error opening input file: " ++ e.message
  | .sourceText path e => "error decoding " ++ path ++ ": reading program: " ++ e.message
  | .source path e => "error decoding " ++ path ++ ": " ++ e.message
  | .outputFile path e => "output target unavailable: " ++ path ++ ": " ++ e.message
  | .outputText path e =>
    (if e.step = .closeFile then "closing " else "writing ") ++ path ++ ": " ++ e.message
  | .noOutput => "output target unavailable"
  | .code e => e.message
  | .simulation path e => "simulation of " ++ path ++ " failed: " ++ e.message
  | .unbalanced path => "simulation of " ++ path ++ " left the stack unbalanced"
  | .savedSettings e => "failed to write config file: " ++ e.message
  | .supportFile e => "writing runtime: " ++ e.message
  | .linking compiler fault output =>
    compiler ++ " failed: " ++ fault.message ++ "\nOutput: " ++ output
  | .noRunner => "toolchain.run is not configured"
  | .running fault => fault.message
  | .discovery e => "error discovering tests: " ++ e.message
  | .failedTests failed total =>
    Text.decimal failed ++ " of " ++ Text.decimal total ++ " tests failed"

/-- Whether a command ends on the spot and cleans nothing up. -/
def CommandError.isBreakdown : CommandError → Bool
  | .settings _ (.breakdown _) => true
  | .noOutput => true
  | .code e => e.isBreakdown
  | _ => false

end RvBackend.Command
