/-! # Calling conventions

`Abi` holds the conventions that generated code follows: the least size of a frame, the size of a
slot, the registers that carry arguments, and the names of the routines that the code calls and is
called by. -/

namespace RvBackend

/-- The conventions of generated code. -/
structure Abi where
  /-- The least size of a frame in bytes. -/
  frameSize : Int64 := 128
  /-- The bytes that each local entry takes in a frame. -/
  slotSize : Int64 := 4
  argRegisters : List String := ["a0", "a1", "a2", "a3", "a4", "a5", "a6", "a7"]
  /-- The registers of the arguments for which `argRegisters` has no room. -/
  overflowRegisters : List String := ["t3", "t4", "t5", "t6"]
  printHelper : String := "printInt"
  readHelper : String := "readInt"
  /-- The name of the routine that a program starts with. -/
  entry : String := "main"
deriving DecidableEq, Repr

namespace Abi

/-- The largest frame whose size fits the immediate of `addi`, which has 12 bits, and is a multiple
of 16. -/
def maxFrameSize : Int64 := 2032

/-- All registers for arguments, in the order of the arguments. -/
def registers (abi : Abi) : List String := abi.argRegisters ++ abi.overflowRegisters

/-- The largest number of arguments. -/
def maxArgs (abi : Abi) : Nat := abi.registers.length

/-- The register of an argument; the arguments count from zero. -/
def argRegister? (abi : Abi) : Int → Option String
  | .ofNat i => abi.registers[i]?
  | .negSucc _ => none

end Abi

end RvBackend
