import RvBackend.Text.Decimal

/-! # Registers

A machine has 32 registers. Each has a number, written `x0` to `x31`, and a name after its use; the
frame pointer has two. -/

namespace RvBackend.Asm

/-- A register by its number. -/
abbrev Register := Fin 32

namespace Register

/-- The registers by the names after their uses. -/
def named : List (String × Register) :=
  [("zero", 0), ("ra", 1), ("sp", 2), ("gp", 3), ("tp", 4), ("t0", 5), ("t1", 6), ("t2", 7),
    ("s0", 8), ("fp", 8), ("s1", 9), ("a0", 10), ("a1", 11), ("a2", 12), ("a3", 13), ("a4", 14),
    ("a5", 15), ("a6", 16), ("a7", 17), ("s2", 18), ("s3", 19), ("s4", 20), ("s5", 21), ("s6", 22),
    ("s7", 23), ("s8", 24), ("s9", 25), ("s10", 26), ("s11", 27), ("t3", 28), ("t4", 29),
    ("t5", 30), ("t6", 31)]

/-- The register of a number that has been read. -/
def ofInt? (n : Int) : Option Register :=
  if h : n.toNat < 32 then (if 0 ≤ n then some ⟨n.toNat, h⟩ else none) else none

/-- The register that a name stands for. The number behind an `x` may have a sign and leading
zeros. -/
def ofName? (name : String) : Option Register :=
  match named.lookup name with
  | some r => some r
  | none =>
    match name.toList with
    | 'x' :: digits => (Text.readInt64 digits).bind ofInt?
    | _ => none

/-- Where a function returns to. -/
def ra : Register := 1

/-- The stack pointer. -/
def sp : Register := 2

/-- The frame pointer. -/
def s0 : Register := 8

/-- The first argument and the result. -/
def a0 : Register := 10

end Register

end RvBackend.Asm
