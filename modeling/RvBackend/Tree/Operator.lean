import RvBackend.Text.Quoted

/-! # Operators

The fifteen operators of the source language, in the order of their numbers. A number outside that
range is kept (`other`), printed, and refused when code is made for it. -/

namespace RvBackend

/-- An operator. -/
inductive Operator where
  | plus
  | minus
  | times
  | divide
  | mod
  | less
  | lessOrEqual
  | greater
  | greaterOrEqual
  | equal
  | notEqual
  | and
  | or
  | not
  | neg
  | other (id : Int)
deriving DecidableEq, Repr

namespace Operator

/-- The operators that have a name, in the order of their numbers. -/
def all : List Operator :=
  [.plus, .minus, .times, .divide, .mod, .less, .lessOrEqual, .greater, .greaterOrEqual, .equal,
    .notEqual, .and, .or, .not, .neg]

/-- The number of an operator. -/
def id : Operator → Int
  | .plus => 0
  | .minus => 1
  | .times => 2
  | .divide => 3
  | .mod => 4
  | .less => 5
  | .lessOrEqual => 6
  | .greater => 7
  | .greaterOrEqual => 8
  | .equal => 9
  | .notEqual => 10
  | .and => 11
  | .or => 12
  | .not => 13
  | .neg => 14
  | .other n => n

/-- The operator of a number. -/
def ofId (n : Int) : Operator := (all.find? (·.id == n)).getD (.other n)

/-- The name of an operator. -/
def text : Operator → String
  | .plus => "+"
  | .minus => "-"
  | .times => "*"
  | .divide => "/"
  | .mod => "mod"
  | .less => "<"
  | .lessOrEqual => "<="
  | .greater => ">"
  | .greaterOrEqual => ">="
  | .equal => "="
  | .notEqual => "<>"
  | .and => "and"
  | .or => "or"
  | .not => "not"
  | .neg => "neg"
  | .other n => "op(" ++ Text.decimal n ++ ")"

/-- The operator with that name. -/
def parse? (name : String) : Option Operator := all.find? (·.text == name)

/-- What is said of a text that names no operator. -/
def unknownMessage (name : String) : String := "unknown operator " ++ Text.quote name

/-- The six comparisons. -/
def isRelational : Operator → Bool
  | .less | .lessOrEqual | .greater | .greaterOrEqual | .equal | .notEqual => true
  | _ => false

/-- The operators that are only ever unary. -/
def isUnary : Operator → Bool
  | .not | .neg => true
  | _ => false

end Operator

end RvBackend
