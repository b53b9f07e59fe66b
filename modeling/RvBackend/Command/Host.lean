import RvBackend.Text.Quoted

/-! # What commands need from their surroundings

Commands read and write files, print, and call other programs. `Host` names these actions, so that
the same commands run on a model of the surroundings and on the real ones. An action that fails says
which step failed, on which path, and why. -/

namespace RvBackend.Command

/-- Why a path cannot be used. -/
inductive PathFault where
  | missing
  | isDirectory
  | notDirectory
  | nameTooLong
  | invalid
  | denied
  /-- Any other fault, with its wording. -/
  | other (text : String)
deriving DecidableEq, Repr

/-- The wording of a path's fault. -/
def PathFault.message : PathFault → String
  | .missing => "no such file or directory"
  | .isDirectory => "is a directory"
  | .notDirectory => "not a directory"
  | .nameTooLong => "file name too long"
  | .invalid => "invalid argument"
  | .denied => "permission denied"
  | .other text => text

/-- The step on a path that failed. -/
inductive FileStep where
  | openFile
  | readFile
  | writeFile
  | closeFile
  | inspect
deriving DecidableEq, Repr

/-- The name of a step. -/
def FileStep.text : FileStep → String
  | .openFile => "open"
  | .readFile => "read"
  | .writeFile => "write"
  | .closeFile => "close"
  | .inspect => "lstat"

/-- Why an action on a file failed. -/
structure FileError where
  step : FileStep
  path : String
  fault : PathFault
deriving DecidableEq, Repr

/-- The wording of a file error. -/
def FileError.message (e : FileError) : String :=
  e.step.text ++ " " ++ e.path ++ ": " ++ e.fault.message

/-- Why a program cannot be started. -/
inductive StartError where
  | noName
  | notFound (name : String)
  /-- What the name stands for is no program. -/
  | noProgram (name : String) (fault : PathFault)
  | path (name : String) (fault : PathFault)
deriving DecidableEq, Repr

/-- The wording of a start error. -/
def StartError.message : StartError → String
  | .noName => "exec: no command"
  | .notFound name => "exec: " ++ Text.quote name ++ ": executable file not found in $PATH"
  | .noProgram name fault => "exec: " ++ Text.quote name ++ ": " ++ fault.message
  | .path name fault => "fork/exec " ++ name ++ ": " ++ fault.message

/-- How a program ended, and what it printed. -/
structure Finished where
  status : Nat
  output : String
deriving DecidableEq, Repr

/-- The actions of commands on their surroundings. -/
class Host (m : Type → Type) where
  /-- The bytes of a file. -/
  readFile : String → m (Except FileError (List UInt8))
  /-- Makes a file, or empties the one that is there. -/
  createFile : String → m (Except FileError Unit)
  /-- Puts a text into the file that was made at a path, and closes it. -/
  fillFile : String → String → m (Except FileError Unit)
  /-- Makes a file with that text, or exchanges the text of the one that is there. -/
  writeFile : String → String → m (Except FileError Unit)
  /-- Removes a file or an empty directory, if there is one. -/
  removeFile : String → m Unit
  /-- Whether there is a file or a directory. -/
  exists? : String → m Bool
  /-- The paths of the files below a directory, directory by directory in the order of their names;
  of a file the path itself. -/
  filesBelow : String → m (Except FileError (List String))
  /-- What is left of the standard input. -/
  readInput : m (List UInt8)
  /-- Prints on the standard output. -/
  print : String → m Unit
  /-- Prints on the standard error. -/
  printError : String → m Unit
  /-- Runs a program with arguments. -/
  call : String → List String → m (Except StartError Finished)

end RvBackend.Command
