import RvBackend.Machine.Operation

/-! # Arithmetic on words

Words have 32 bits and a sign; sums, differences and products wrap around. A division by zero gives
`-1` and leaves the dividend as the remainder, and the quotient of the least word by `-1` wraps
around. Shifts look at the low five bits of their amount. -/

namespace RvBackend.Machine

/-- A truth value as a word. -/
def boolWord (b : Bool) : Int32 := if b then 1 else 0

/-- The result of an operation on one word. -/
def UnaryOp.apply (a : Int32) : UnaryOp → Int32
  | .mv => a
  | .neg => -a
  | .not => ~~~a
  | .seqz => boolWord (a == 0)
  | .snez => boolWord (a != 0)
  | .sltz => boolWord (a < 0)
  | .sgtz => boolWord (0 < a)

/-- The quotient of two words, rounded toward zero. -/
def quotient (a b : Int32) : Int32 :=
  if b = 0 then -1 else if a = Int32.minValue ∧ b = -1 then a else a / b

/-- The remainder of two words, with the sign of the first. -/
def remainder (a b : Int32) : Int32 :=
  if b = 0 then a else if a = Int32.minValue ∧ b = -1 then 0 else a % b

/-- The result of an operation on two words. -/
def BinaryOp.apply (a b : Int32) : BinaryOp → Int32
  | .add => a + b
  | .sub => a - b
  | .mul => a * b
  | .div => quotient a b
  | .rem => remainder a b
  | .and => a &&& b
  | .or => a ||| b
  | .xor => a ^^^ b
  | .slt => boolWord (a < b)
  | .sll => a <<< (b &&& 31)
  | .sra => a >>> (b &&& 31)

/-- Whether a condition holds of two words. -/
def Condition.holds (a b : Int32) : Condition → Bool
  | .eq => a == b
  | .ne => a != b
  | .lt => a < b
  | .ge => b ≤ a

end RvBackend.Machine
