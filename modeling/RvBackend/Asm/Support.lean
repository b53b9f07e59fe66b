import RvBackend.Settings.Abi

/-! # The routines that programs are linked with

`supportText` is the assembly text of the two routines that print and read an integer, written on
top of `printf` and `scanf`. They bear the names that generated code calls them by. -/

namespace RvBackend.Asm

/-- The data of both routines. -/
def supportData : String :=
  "    .file \"runtime.asm\"\n    .option nopic\n.section    .rodata\n    .align 2\n" ++
    ".Lfmt_print:\n    .string \"%d\\n\"\n.Lfmt_read:\n    .string \"%d\"\n\n.section    .text\n"

/-- The directives and the label that open a routine. -/
def routineHead (name : String) : String :=
  "    .align 2\n    .globl " ++ name ++ "\n    .type " ++ name ++ ", @function\n" ++ name ++ ":\n"

/-- The routine that prints an integer. -/
def printRoutine (name : String) : String :=
  routineHead name ++ "    addi sp, sp, -16\n    sw ra, 12(sp)\n    mv a1, a0\n" ++
    "    lui a0, %hi(.Lfmt_print)\n    addi a0, a0, %lo(.Lfmt_print)\n    call printf\n" ++
    "    lw ra, 12(sp)\n    addi sp, sp, 16\n    jr ra\n"

/-- The routine that reads an integer. -/
def readRoutine (name : String) : String :=
  routineHead name ++ "    addi sp, sp, -16\n    sw ra, 12(sp)\n    sw zero, 8(sp)\n" ++
    "    addi a1, sp, 8\n    lui a0, %hi(.Lfmt_read)\n    addi a0, a0, %lo(.Lfmt_read)\n" ++
    "    call scanf\n    lw a0, 8(sp)\n    lw ra, 12(sp)\n    addi sp, sp, 16\n    jr ra\n"

/-- The text of both routines under the names of the conventions. -/
def supportText (abi : Abi) : String :=
  supportData ++ printRoutine abi.printHelper ++ "\n" ++ readRoutine abi.readHelper

end RvBackend.Asm
