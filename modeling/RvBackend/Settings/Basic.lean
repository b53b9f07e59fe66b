import RvBackend.Settings.Abi
import RvBackend.Text.Decimal

/-! # Settings

The settings of the tool: the conventions of generated code, the names of output files, and the
compiler that is called to link programs.

* `Settings.problems` lists what is wrong with settings. -/

namespace RvBackend

/-- Where assembly files go. -/
structure OutputSettings where
  extension : String := ".S"
  dir : String := "."
deriving DecidableEq, Repr

/-- The tools for linking and running programs. -/
structure Toolchain where
  compiler : String := "riscv32-unknown-elf-gcc"
  flags : List String := ["-march=rv32im", "-mabi=ilp32"]
  /-- The words put before the name of a program to run it. -/
  runner : List String := []
deriving DecidableEq, Repr

/-- The settings of the tool. -/
structure Settings where
  abi : Abi := {}
  output : OutputSettings := {}
  toolchain : Toolchain := {}
deriving DecidableEq, Repr

/-- One thing that is wrong with settings. -/
inductive Problem where
  | frameSize (size : Int64)
  | frameTooLarge (size : Int64)
  | slotSize (size : Int64)
  | noRegisters
  | reservedRegister (name : String)
  | repeatedRegister (name : String)
  | noHelper
  | noExtension
deriving DecidableEq, Repr

/-- The wording of a problem. -/
def Problem.message : Problem → String
  | .frameSize size =>
    "abi.frame_size must be a positive multiple of 16, got " ++ Text.decimal size.toInt
  | .frameTooLarge size =>
    "abi.frame_size must be at most " ++ Text.decimal Abi.maxFrameSize.toInt ++ ", got " ++
      Text.decimal size.toInt
  | .slotSize size =>
    "abi.slot_size must be a positive multiple of 4, got " ++ Text.decimal size.toInt
  | .noRegisters => "abi.arg_registers must not be empty"
  | .reservedRegister name => "register " ++ name ++ " is reserved by the generator"
  | .repeatedRegister name => "register " ++ name ++ " is listed twice"
  | .noHelper => "abi.print_helper, abi.read_helper and abi.entry must be set"
  | .noExtension => "output.extension must not be empty"

/-- The registers that generated code uses for itself. -/
def reservedRegisters : List String := ["zero", "ra", "sp", "s0", "t0", "t1"]

/-- The problems of registers behind the registers `seen`. -/
def registerProblems (seen : List String) : List String → List Problem
  | [] => []
  | r :: rs =>
    (if reservedRegisters.contains r then [.reservedRegister r] else []) ++
      (if seen.contains r then [.repeatedRegister r] else []) ++ registerProblems (r :: seen) rs

/-- The problem of a frame size. -/
def frameProblems (size : Int64) : List Problem :=
  if size ≤ 0 || size % 16 != 0 then [.frameSize size]
  else if Abi.maxFrameSize < size then [.frameTooLarge size]
  else []

/-- What is wrong with settings, in the order in which it is told. -/
def Settings.problems (s : Settings) : List Problem :=
  frameProblems s.abi.frameSize ++
  (if s.abi.slotSize < 4 || s.abi.slotSize % 4 != 0 then [.slotSize s.abi.slotSize] else []) ++
  (if s.abi.argRegisters.isEmpty then [.noRegisters] else []) ++
  registerProblems [] s.abi.registers ++
  (if s.abi.printHelper.isEmpty || s.abi.readHelper.isEmpty || s.abi.entry.isEmpty then [.noHelper]
    else []) ++
  (if s.output.extension.isEmpty then [.noExtension] else [])

/-- Problems, each on a line of its own. -/
def problemsText (ps : List Problem) : String := "\n".intercalate (ps.map Problem.message)

end RvBackend
