import RvBackend.Command.Flags
import RvBackend.Text.Case

/-! # Finding the command of a command line

The first argument that is neither a flag nor the value of one names the command. At that point only
the flags that all commands share are known, so an unknown flag counts as one with a value.

* `Verb.find` finds the command and leaves its own arguments. -/

namespace RvBackend.Command

/-- The commands. -/
inductive Verb where
  | build
  | config
  | gen
  | run
  | verify
  | completion
  | help
deriving DecidableEq, Repr

namespace Verb

/-- The name of a command. -/
def name : Verb → String
  | .build => "build"
  | .config => "config"
  | .gen => "gen"
  | .run => "run"
  | .verify => "verify"
  | .completion => "completion"
  | .help => "help"

/-- The commands that are suggested for a misspelt one, in that order. -/
def suggested : List Verb := [.build, .config, .gen, .run, .verify, .completion]

/-- All commands. -/
def all : List Verb := suggested ++ [.help]

/-- The command with that name. -/
def find? (name : String) : Option Verb := all.find? (·.name == name)

/-- Commands that only tell about the other ones. -/
def isInformation : Verb → Bool
  | .completion | .help => true
  | _ => false

/-- The flags that all commands share. -/
def sharedFlags : List Flag := [.config, .verbose]

/-- The flags of a command. -/
def flags : Verb → List Flag
  | .build => [.keep, .output, .help] ++ sharedFlags
  | .gen => [.output, .help] ++ sharedFlags
  | .run => [.maxSteps, .help] ++ sharedFlags
  | .verify => [.native, .help] ++ sharedFlags
  | _ => [.help] ++ sharedFlags

/-! ### Suggestions -/

/-- One row of the table of edit distances, from the row above it: `above` is the entry above the
current one, `left` the entry before it. -/
def distanceRow (a : UInt8) (left above : Nat) : List UInt8 → List Nat → List Nat
  | b :: bs, d :: ds =>
    let here := if a = b then above else min above (min left d) + 1
    here :: distanceRow a here d bs ds
  | _, _ => []

/-- The least number of bytes to insert, delete or exchange to get from one text to the other. -/
def distance (s t : List UInt8) : Nat :=
  let first := List.range (t.length + 1)
  let step (row : List Nat) (a : UInt8) : List Nat :=
    match row with
    | [] => []
    | d :: ds => (d + 1) :: distanceRow a (d + 1) d t ds
  (s.foldl step first).getLastD 0

/-- Whether a command is suggested for a name: the name is its beginning, or two changes away. -/
def isNear (typed : String) (v : Verb) : Bool :=
  v.name.startsWith (Text.lower typed) ||
    distance (Text.lower typed).toUTF8.data.toList v.name.toUTF8.data.toList ≤ 2

/-- The suggestions for a name. -/
def suggestions (typed : String) : List Verb := suggested.filter (isNear typed)

/-- What is said of a name that is no command. -/
def unknownMessage (typed : String) : String :=
  let hint :=
    match suggestions typed with
    | [] => ""
    | vs => "\n\nDid you mean this?\n" ++ String.join (vs.map fun v => "\t" ++ v.name ++ "\n")
  "unknown command " ++ Text.quote typed ++ " for \"linc\"" ++ hint

/-! ### The place of the command -/

/-- Whether the argument behind this one is its value, as far as the shared flags tell. -/
def takesNext (arg : String) : Bool :=
  if arg.contains '=' || !arg.startsWith "-" then false
  else if arg.startsWith "--" then
    !((Flag.find? sharedFlags (String.ofList (arg.toList.drop 2))).any Flag.isSwitch)
  else
    match arg.toList with
    | ['-', c] => c.toNat < 0x80 && !((Flag.findLetter? sharedFlags c).any Flag.isSwitch)
    | _ => false

/-- The arguments that are neither flags nor values of flags. A flag whose value would be the last
argument ends the search. -/
def words : List String → List String
  | [] => []
  | [arg] => if arg.startsWith "-" || arg.isEmpty then [] else [arg]
  | arg :: next :: rest =>
    if arg = "--" then []
    else if takesNext arg then (if rest.isEmpty then [] else words rest)
    else if arg.startsWith "-" || arg.isEmpty then words (next :: rest)
    else arg :: words (next :: rest)

/-- The arguments without the first one that is this word and no value of a flag. -/
def without (word : String) : List String → List String
  | [] => []
  | [arg] => if arg = word && !arg.startsWith "-" then [] else [arg]
  | arg :: next :: rest =>
    if arg = "--" then arg :: next :: rest
    else if takesNext arg then arg :: next :: without word rest
    else if arg = word && !arg.startsWith "-" then next :: rest
    else arg :: without word (next :: rest)

/-- The command of a command line with the arguments left to it; `none` stands for a line without a
command, and an error is a name that is no command. -/
def find (args : List String) : Except String (Option Verb × List String) :=
  match words args with
  | [] => .ok (none, args)
  | word :: _ =>
    match find? word with
    | some v => .ok (some v, without word args)
    | none => .error word

end Verb

end RvBackend.Command
