import RvBackend.Command.Files

/-! # A model of the surroundings

A `World` holds files, the standard input and what has been printed. It knows three programs: `true`
and `false`, which do nothing, and `echo`, which prints its arguments. -/

namespace RvBackend.Command

/-- The surroundings of a command. -/
structure World where
  files : Files := {}
  input : List UInt8 := []
  output : String := ""
  errors : String := ""

namespace World

/-- An argument that is an option of `echo`. -/
def isEchoOption (arg : String) : Bool :=
  match arg.toList with
  | '-' :: c :: cs => (c :: cs).all fun c => c = 'n' || c = 'e' || c = 'E'
  | _ => false

/-- What `echo` prints: its arguments behind the options, and the end of the line unless an option
says no. -/
def echo (args : List String) : String :=
  let options := args.takeWhile isEchoOption
  let text := " ".intercalate (args.drop options.length)
  if options.any (·.contains 'n') then text else text ++ "\n"

/-- Runs one of the three programs. Another name is not found, and another path leads to nothing
that could be run. The root directory is a name and a path at once: it is found, but is no
program. -/
def runProgram (w : World) (name : String) (args : List String) : Except StartError Finished :=
  match name with
  | "" => .error .noName
  | "true" => .ok ⟨0, ""⟩
  | "false" => .ok ⟨1, ""⟩
  | "echo" => .ok ⟨0, echo args⟩
  | "/" => .error (.noProgram "/" .isDirectory)
  | name =>
    if name.contains '/' then
      match w.files.node name with
      | .error fault => .error (.path name fault)
      | .ok _ => .error (.path name .denied)
    else .error (.notFound name)

/-- Changes the files, if that succeeds. -/
def update (change : Files → Except FileError Files) : StateM World (Except FileError Unit) :=
  modifyGet fun w =>
    match change w.files with
    | .error e => (.error e, w)
    | .ok files => (.ok (), { w with files })

end World

instance : Host (StateM World) where
  readFile path := return (← get).files.read? path
  createFile path := World.update (·.write? path [])
  fillFile path text := World.update (·.write? path (Text.utf8 text))
  writeFile path text := World.update (·.write? path (Text.utf8 text))
  removeFile path := modify fun w => { w with files := w.files.remove path }
  exists? path := return (← get).files.node path |>.isOk
  filesBelow path := return (← get).files.below path
  readInput := modifyGet fun w => (w.input, { w with input := [] })
  print text := modify fun w => { w with output := w.output ++ text }
  printError text := modify fun w => { w with errors := w.errors ++ text }
  call name args := return (← get).runProgram name args

end RvBackend.Command
