import RvBackend.Command.Session

/-! # Tests of programs

A test is a program `x.json` with the output that is expected of it in `x.out`, and perhaps an input
in `x.in`. A program is tested on the machine, or linked and run by the tools of the settings.

* `discover` finds the tests below a directory.
* `verify` carries them out and reports. -/

namespace RvBackend.Command

variable {m : Type → Type} [Monad m] [Host m]

/-- One test. -/
structure Test where
  name : String
  source : String
  expected : String
  input : Option String
deriving DecidableEq, Repr

/-- The test of a program below a directory, if there is one. -/
def Test.ofSource (dir path : String) : Action m (Option Test) := do
  if !path.endsWith ".json" then return none
  let base := Text.withoutSuffix path ".json"
  if !(← Host.exists? (base ++ ".out")) then return none
  let hasInput ← Host.exists? (base ++ ".in")
  return some
    { name := Text.withoutFront (Text.withoutFront base dir) "/"
      source := path
      expected := base ++ ".out"
      input := if hasInput then some (base ++ ".in") else none }

/-- The tests below a directory, in the order of their names. -/
def discover (dir : String) : Action m (List Test) := do
  let files ← orFail .discovery (← Host.filesBelow dir)
  let tests ← files.filterMapM (Test.ofSource dir)
  return tests.mergeSort fun a b => a.name ≤ b.name

/-- Links the program of a test, runs it, and gives what it printed. -/
def runLinked (s : Session) (source : String) : Action m String := do
  match s.settings.toolchain.runner with
  | [] => throw .noRunner
  | runner :: args =>
    let executable ← s.build source (Text.withoutSuffix source ".json" ++ ".elf") false
    let output ← tryCatch
      (Session.call runner (args ++ [executable]) fun fault _ => .running fault)
      fun e => do
        Host.removeFile executable
        throw e
    Host.removeFile executable
    return output

/-- Why a test fails. -/
inductive TestFault where
  | expectedFile (e : FileError)
  | inputFile (e : FileError)
  | failure (e : CommandError)
  | mismatch (expected actual : List UInt8)

/-- The wording of a test's fault. -/
def TestFault.message : TestFault → String
  | .expectedFile e => "error reading expected output: " ++ e.message
  | .inputFile e => "error reading input: " ++ e.message
  | .failure e => "runtime error: " ++ e.message
  | .mismatch expected actual =>
    "output mismatch:\nExpected: " ++ Text.quoteBytes expected ++ "\nActual:   " ++
      Text.quoteBytes actual

/-- What the program of a test prints. -/
def Test.output (s : Session) (native : Bool) (source : String) (input : List UInt8) :
    Action m String := do
  if native then runLinked s source
  else
    let (printed, outcome) ← s.simulate source input
    orFail id outcome
    return printed

/-- Carries out a test. -/
def Test.run (s : Session) (native : Bool) (t : Test) : m (Except TestFault Unit) := ExceptT.run do
  let expected ← (ExceptT.mk (Host.readFile t.expected)).adapt .expectedFile
  let input ←
    match t.input with
    | none => pure []
    | some path => (ExceptT.mk (Host.readFile path)).adapt .inputFile
  let printed ← (Test.output s native t.source input : Action m String).adapt .failure
  let actual := Text.utf8 printed
  if actual ≠ expected then throw (.mismatch expected actual)

/-- Carries out tests with a report on each, and counts those that fail. -/
def runTests (s : Session) (native : Bool) (failed : Nat) : List Test → Action m Nat
  | [] => return failed
  | t :: ts => do
    Host.print ("Running test " ++ t.name ++ "... ")
    match ← (t.run s native : m _) with
    | .ok _ =>
      Host.print "PASS\n"
      runTests s native failed ts
    | .error fault =>
      Host.print ("FAIL - " ++ fault.message ++ "\n")
      runTests s native (failed + 1) ts

/-- Carries out the tests below a directory and reports. -/
def verify (s : Session) (native : Bool) (dir : String) : Action m Unit := do
  let tests ← discover dir
  if tests.isEmpty then Host.print ("No tests found in " ++ dir ++ "\n")
  else
    let total := tests.length
    Host.print ("Found " ++ Text.decimal total ++ " tests\n")
    let failed ← runTests s native 0 tests
    let passed := "Test Results: " ++ Text.decimal (total - failed : Nat) ++ " passed"
    if failed = 0 then Host.print (passed ++ ". All good!\n")
    else
      Host.print (passed ++ ", " ++ Text.decimal failed ++ " failed\n")
      throw (.failedTests failed total)

end RvBackend.Command
