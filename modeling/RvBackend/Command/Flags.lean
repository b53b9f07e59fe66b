import RvBackend.Text.Literal
import RvBackend.Text.Quoted

/-! # Flags

A flag has a name, written behind two dashes, and may have a letter, written behind one. A switch
needs no value; all other flags do. Letters of switches may stand together, and flags may come
before and after the other arguments; two dashes alone end them.

* `Flag.parse` tells flags from arguments. -/

namespace RvBackend.Command

/-- The flags of all commands. -/
inductive Flag where
  | config
  | verbose
  | help
  | output
  | keep
  | native
  | maxSteps
deriving DecidableEq, Repr

namespace Flag

/-- The name of a flag. -/
def name : Flag → String
  | .config => "config"
  | .verbose => "verbose"
  | .help => "help"
  | .output => "o"
  | .keep => "keep"
  | .native => "native"
  | .maxSteps => "max-steps"

/-- The letter of a flag. -/
def letter? : Flag → Option Char
  | .config => some 'c'
  | .verbose => some 'v'
  | .help => some 'h'
  | .output => some 'o'
  | .keep => some 'k'
  | .native => none
  | .maxSteps => none

/-- Flags that need no value. -/
def isSwitch : Flag → Bool
  | .verbose | .help | .keep | .native => true
  | _ => false

/-- A flag as it is shown. -/
def text (f : Flag) : String :=
  match f.letter? with
  | some c => "-" ++ c.toString ++ ", --" ++ f.name
  | none => "--" ++ f.name

/-- The flag with that name. -/
def find? (flags : List Flag) (name : String) : Option Flag := flags.find? (·.name == name)

/-- The flag with that letter. -/
def findLetter? (flags : List Flag) (c : Char) : Option Flag := flags.find? (·.letter? == some c)

end Flag

/-- What the flags of a command line say. -/
structure Choices where
  config : String := ""
  verbose : Bool := false
  help : Bool := false
  output : String := ""
  keep : Bool := false
  native : Bool := false
  maxSteps : Int := 10000000
deriving DecidableEq, Repr

/-- Why a value does not suit its flag. -/
inductive ValueFault where
  | truth
  | integer (e : Text.LiteralError)
deriving DecidableEq, Repr

/-- The wording for a value that does not suit its flag. -/
def ValueFault.message (value : String) : ValueFault → String
  | .truth => "strconv.ParseBool: parsing " ++ Text.quote value ++ ": invalid syntax"
  | .integer .malformed => "strconv.ParseInt: parsing " ++ Text.quote value ++ ": invalid syntax"
  | .integer .outOfRange =>
    "strconv.ParseInt: parsing " ++ Text.quote value ++ ": value out of range"

/-- Why flags cannot be read. -/
inductive FlagError where
  | badForm (arg : String)
  | unknown (name : String)
  | unknownLetter (c : Char) (letters : String)
  | noValue (arg : String)
  | noLetterValue (c : Char) (letters : String)
  | badValue (flag : Flag) (value : String) (fault : ValueFault)
deriving DecidableEq, Repr

/-- The wording of a flag error. -/
def FlagError.message : FlagError → String
  | .badForm arg => "bad flag syntax: " ++ arg
  | .unknown name => "unknown flag: --" ++ name
  | .unknownLetter c letters => "unknown shorthand flag: " ++ Text.quoteSingle c ++ " in -" ++
      letters
  | .noValue arg => "flag needs an argument: " ++ arg
  | .noLetterValue c letters =>
    "flag needs an argument: " ++ Text.quoteSingle c ++ " in -" ++ letters
  | .badValue flag value fault =>
    "invalid argument " ++ Text.quote value ++ " for " ++ Text.quote flag.text ++ " flag: " ++
      fault.message value

/-- The truth value that a text names. -/
def truth? (s : String) : Option Bool :=
  if ["1", "t", "T", "TRUE", "true", "True"].contains s then some true
  else if ["0", "f", "F", "FALSE", "false", "False"].contains s then some false
  else none

namespace Choices

/-- The choices with another value of a flag. -/
def set (c : Choices) (flag : Flag) (value : String) : Except FlagError Choices := do
  let truth : Except FlagError Bool :=
    (truth? value).elim (.error (.badValue flag value .truth)) .ok
  match flag with
  | .config => return { c with config := value }
  | .output => return { c with output := value }
  | .verbose => return { c with verbose := ← truth }
  | .help => return { c with help := ← truth }
  | .keep => return { c with keep := ← truth }
  | .native => return { c with native := ← truth }
  | .maxSteps =>
    match Text.readLiteral 64 value.toList with
    | .ok n => return { c with maxSteps := n }
    | .error e => throw (.badValue flag value (.integer e))

end Choices

namespace Flag

/-- The first byte of a character as a character of its own. -/
def leadByte (c : Char) : Char :=
  Char.ofNat ((c.toString.toUTF8.data[0]?).map UInt8.toNat |>.getD 0)

/-- The flags of some letters. `next` is the argument behind them; the answer tells whether it was
used as a value. -/
def parseLetters (flags : List Flag) (c : Choices) (next : Option String) :
    List Char → Except FlagError (Choices × Bool)
  | [] => .ok (c, false)
  | letter :: rest =>
    let letters := String.ofList (letter :: rest)
    if letters.startsWith "test." then .ok (c, false)
    else
      match findLetter? flags letter with
      | none => .error (.unknownLetter (leadByte letter) letters)
      | some flag => do
        match rest with
        | '=' :: v :: value => return (← c.set flag (String.ofList (v :: value)), false)
        | rest =>
          if flag.isSwitch then
            let c ← c.set flag "true"
            parseLetters flags c next rest
          else if !rest.isEmpty then return (← c.set flag (String.ofList rest), false)
          else
            match next with
            | some value => return (← c.set flag value, true)
            | none => throw (.noLetterValue letter letters)

/-- One argument with two dashes. `next` is the argument behind it; the answer tells whether it was
used as a value. -/
def parseLong (flags : List Flag) (c : Choices) (next : Option String) (arg : String) :
    Except FlagError (Choices × Bool) :=
  let body := arg.toList.drop 2
  let name := body.takeWhile (· != '=')
  if name.isEmpty || name.head? == some '-' then .error (.badForm arg)
  else
    match find? flags (String.ofList name) with
    | none => .error (.unknown (String.ofList name))
    | some flag =>
      if name.length < body.length then do
        return (← c.set flag (String.ofList (body.drop (name.length + 1))), false)
      else if flag.isSwitch then do return (← c.set flag "true", false)
      else
        match next with
        | some value => do return (← c.set flag value, true)
        | none => .error (.noValue arg)

/-- Whether an argument is, or begins with, a flag. -/
def isFlag (arg : String) : Bool := arg.startsWith "-" && arg ≠ "-"

/-- The choices of the flags, and the other arguments behind the arguments `acc`, which are in
reverse order. -/
def parseFrom (flags : List Flag) (c : Choices) (acc : List String) :
    List String → Except FlagError (Choices × List String)
  | [] => .ok (c, acc.reverse)
  | [arg] => do
    if arg = "--" then return (c, acc.reverse)
    if !isFlag arg then return (c, (arg :: acc).reverse)
    let (c, _) ← parseOne arg c none
    return (c, acc.reverse)
  | arg :: next :: rest => do
    if arg = "--" then return (c, acc.reverse ++ next :: rest)
    if !isFlag arg then parseFrom flags c (arg :: acc) (next :: rest)
    else
      let (c, used) ← parseOne arg c (some next)
      if used then parseFrom flags c acc rest else parseFrom flags c acc (next :: rest)
where
  /-- One argument with flags. -/
  parseOne (arg : String) (c : Choices) (next : Option String) : Except FlagError
      (Choices × Bool) :=
    if arg.startsWith "--" then parseLong flags c next arg
    else parseLetters flags c next (arg.toList.drop 1)

/-- The choices of the flags, and the other arguments. -/
def parse (flags : List Flag) (args : List String) : Except FlagError (Choices × List String) :=
  parseFrom flags {} [] args

end Flag

end RvBackend.Command
