import RvBackend.Command.Host
import RvBackend.Text.Path
import RvBackend.Text.Utf8

/-! # A model of a file system

Files and directories below a working directory, by the names on the way to them. A path is followed
name by name, and every name but the last must be that of a directory. Outside the working directory
there are directories, but nothing in them can be reached.

* `Files.locate` follows a path.
* `Files.read?`, `Files.write?`, `Files.remove` and `Files.below` are the actions on it.
* `Files.written` and `Files.removed` compare two file systems. -/

namespace RvBackend.Command

/-- A file with its bytes, or a directory. -/
inductive FileNode where
  | file (bytes : List UInt8)
  | directory
deriving DecidableEq, Repr

/-- The names on the way to a file from the working directory. -/
abbrev Place := List String

/-- Where a path leads. -/
inductive Spot where
  | inside (place : Place)
  /-- A directory outside the working directory. -/
  | outside
deriving DecidableEq, Repr

/-- The directory that a directory is in. -/
def Spot.parent : Spot → Spot
  | .inside [] => .outside
  | .inside place => .inside place.dropLast
  | .outside => .outside

/-- The files and directories below the working directory. -/
structure Files where
  nodes : List (Place × FileNode) := []

namespace Files

/-- What is at a place; the working directory itself is a directory. -/
def at? (fs : Files) : Place → Option FileNode
  | [] => some .directory
  | place => fs.nodes.lookup place

/-- Takes what is at a place away. -/
def erase (fs : Files) (place : Place) : Files := ⟨fs.nodes.filter (·.1 != place)⟩

/-- Puts a node at a place. -/
def put (fs : Files) (place : Place) (node : FileNode) : Files :=
  ⟨(fs.erase place).nodes ++ [(place, node)]⟩

/-- Puts directories at all places on the way to a place. -/
def putDirectories (fs : Files) (place : Place) : Files :=
  (List.range place.length).foldl
    (fun fs n => if (fs.at? (place.take n)).isSome then fs else fs.put (place.take n) .directory) fs

/-- The names of a path, between its slashes. -/
def namesOf (path : String) : List String := (Text.splitOn '/' path.toList).map String.ofList

/-- The path of a place. -/
def pathOf (place : Place) : String := "/".intercalate place

/-- One more file; a path that ends with a slash is that of a directory. -/
def add (fs : Files) (path : String) (bytes : List UInt8) : Files :=
  let place := (namesOf path).filter (· ≠ "")
  let fs := fs.putDirectories place
  if path.toList.getLast? = some '/' then fs.put place .directory else fs.put place (.file bytes)

/-- The longest name of a file, in bytes. -/
def maxNameBytes : Nat := 255

/-- What is at a spot. -/
def atSpot? (fs : Files) : Spot → Option FileNode
  | .inside place => fs.at? place
  | .outside => some .directory

/-- Where a name leads from a directory. -/
def next (spot : Spot) (name : String) : Except PathFault Spot :=
  if name = "" ∨ name = "." then .ok spot
  else if name = ".." then .ok spot.parent
  else if maxNameBytes < name.utf8ByteSize then .error .nameTooLong
  else
    match spot with
    | .inside place => .ok (.inside (place ++ [name]))
    | .outside => .error .missing

/-- Follows names from a spot. -/
def follow (fs : Files) (spot : Spot) : List String → Except PathFault Spot
  | [] => .ok spot
  | name :: names =>
    match fs.atSpot? spot with
    | none => .error .missing
    | some (.file _) => .error .notDirectory
    | some .directory =>
      match next spot name with
      | .error fault => .error fault
      | .ok spot => fs.follow spot names

/-- Paths have fewer bytes than this. -/
def pathLimit : Nat := 4096

/-- Refuses a path for its text alone, before it is followed. -/
def checkPath (path : String) : Except PathFault Unit :=
  if '\x00' ∈ path.toList then .error .invalid
  else if pathLimit ≤ path.utf8ByteSize then .error .nameTooLong
  else if path.isEmpty then .error .missing
  else .ok ()

/-- Where a path starts. -/
def startOf (path : String) : Spot := if path.startsWith "/" then .outside else .inside []

/-- The spot of a path. There need not be anything at it, but there is a directory for it. -/
def locate (fs : Files) (path : String) : Except PathFault Spot := do
  checkPath path
  fs.follow (startOf path) (namesOf path)

/-- What is at a path. -/
def node (fs : Files) (path : String) : Except PathFault FileNode := do
  match fs.atSpot? (← fs.locate path) with
  | some node => return node
  | none => throw .missing

/-- The bytes of a file. -/
def read? (fs : Files) (path : String) : Except FileError (List UInt8) :=
  match fs.node path with
  | .error fault => .error ⟨.openFile, path, fault⟩
  | .ok .directory => .error ⟨.readFile, path, .isDirectory⟩
  | .ok (.file bytes) => .ok bytes

/-- The place of a file that may be written. A path that ends with a slash is that of a directory,
whatever is there, once the names before its last one lead to a directory. -/
def target (fs : Files) (path : String) : Except PathFault Place := do
  checkPath path
  let stem := String.ofList (Text.dropTrailingSlashes path.toList)
  if stem ≠ path then
    let _ ← fs.follow (startOf path) ((namesOf stem).dropLast ++ [""])
    throw .isDirectory
  match ← fs.follow (startOf path) (namesOf path) with
  | .outside => throw .isDirectory
  | .inside place => if fs.at? place = some .directory then throw .isDirectory else return place

/-- Puts bytes into a file, which is made if it is not there. -/
def write? (fs : Files) (path : String) (bytes : List UInt8) : Except FileError Files :=
  match fs.target path with
  | .error fault => .error ⟨.openFile, path, fault⟩
  | .ok place => .ok (fs.put place (.file bytes))

/-- Whether a place lies below another one. -/
def isBelow (base place : Place) : Bool := base.isPrefixOf place && base.length < place.length

/-- Removes a file, or a directory with nothing in it. -/
def remove (fs : Files) (path : String) : Files :=
  match fs.locate path with
  | .error _ | .ok .outside => fs
  | .ok (.inside place) =>
    match fs.at? place with
    | none => fs
    | some (.file _) => fs.erase place
    | some .directory =>
      if place.isEmpty || fs.nodes.any (fun (p, _) => isBelow place p) then fs else fs.erase place

/-- The order of places: name by name. -/
def placeLe : Place → Place → Bool
  | [], _ => true
  | _ :: _, [] => false
  | a :: as, b :: bs => a < b || (a == b && placeLe as bs)

/-- The paths of the files below a path, in the order of their places. -/
def below (fs : Files) (path : String) : Except FileError (List String) :=
  match fs.locate path with
  | .error fault => .error ⟨.inspect, path, fault⟩
  | .ok .outside => .error ⟨.inspect, path, .missing⟩
  | .ok (.inside place) =>
    match fs.at? place with
    | none => .error ⟨.inspect, path, .missing⟩
    | some (.file _) => .ok [path]
    | some .directory =>
      let files := fs.nodes.filterMap fun (p, node) =>
        match node with
        | .file _ => if isBelow place p then some (p.drop place.length) else none
        | .directory => none
      .ok ((files.mergeSort placeLe).map fun p => Text.joinPath path (pathOf p))

/-! ### Comparing -/

/-- The files with their bytes. -/
def contents (fs : Files) : List (String × List UInt8) :=
  fs.nodes.filterMap fun (place, node) =>
    match node with
    | .file bytes => some (pathOf place, bytes)
    | .directory => none

/-- The files that are new or have other bytes than before. -/
def written (before after : Files) : List (String × List UInt8) :=
  after.contents.filter fun (path, bytes) => before.contents.lookup path != some bytes

/-- The paths of the files that are no longer there, in order. -/
def removed (before after : Files) : List String :=
  let gone := before.contents.filter fun (path, _) => (after.contents.lookup path).isNone
  (gone.map (·.1)).mergeSort fun a b => a ≤ b

end Files

end RvBackend.Command
