import RvBackend.Command.Line

/-! # The program

`main` carries out its command line on the real surroundings. It calls no other programs: each of
them counts as not found. -/

namespace RvBackend.Command

/-- Why an action on a path failed. -/
def PathFault.ofIOError : IO.Error → PathFault
  | .noFileOrDirectory .. => .missing
  | .noSuchThing .. => .missing
  | .permissionDenied .. => .denied
  | .inappropriateType .. => .isDirectory
  | e => .other (toString e)

/-- An action on a path, with its failure as a value. -/
def attempt {α : Type} (step : FileStep) (path : String) (act : IO α) :
    IO (Except FileError α) := do
  try return .ok (← act)
  catch e => return .error ⟨step, path, PathFault.ofIOError e⟩

/-- Whether a path leads to a directory. -/
def isDirectory (path : String) : IO Bool := (IO.FS.DirEntry.root ⟨path, ""⟩).isDir

/-- Whether a path leads to anything. -/
def isThere (path : String) : IO Bool := (IO.FS.DirEntry.root ⟨path, ""⟩).pathExists

/-- The paths of the files below a directory that lies at most that deep. -/
def filesWithin (path : String) : Nat → IO (List String)
  | 0 => return []
  | depth + 1 => do
    if !(← isDirectory path) then return [path]
    let entries ← (IO.FS.DirEntry.root ⟨path, ""⟩).readDir
    let names := (entries.toList.map IO.FS.DirEntry.fileName).mergeSort fun a b => a ≤ b
    return (← names.mapM fun name => filesWithin (Text.joinPath path name) depth).flatten

/-- The deepest nesting of directories that is looked at. -/
def maxDepth : Nat := 256

instance : Host IO where
  readFile path := do
    if ← isDirectory path then return .error ⟨.readFile, path, .isDirectory⟩
    attempt .openFile path do return (← IO.FS.readBinFile path).data.toList
  createFile path := attempt .openFile path (IO.FS.writeFile path "")
  fillFile path text := attempt .writeFile path (IO.FS.writeFile path text)
  writeFile path text := attempt .openFile path (IO.FS.writeFile path text)
  removeFile path := do
    try IO.FS.removeFile path
    catch _ => return
  exists? path := isThere path
  filesBelow path := do
    if !(← isThere path) then return .error ⟨.inspect, path, .missing⟩
    attempt .inspect path (filesWithin path maxDepth)
  readInput := return (← (← IO.getStdin).readBinToEnd).data.toList
  print text := do (← IO.getStdout).putStr text
  printError text := do (← IO.getStderr).putStr text
  call name _ := return .error (if name.isEmpty then .noName else .notFound name)

end RvBackend.Command

/-- Carries out a command line. -/
def main (args : List String) : IO UInt32 := do
  let status ← (RvBackend.Command.runLine args : IO Nat)
  return status.toUInt32
