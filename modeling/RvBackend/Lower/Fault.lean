import RvBackend.Tree.Basic

/-! # Why no code can be made

Generation stops at the first name that is not declared or construct that has no code. A `Failure`
is such a fault with the part of the program that code was being made for. -/

namespace RvBackend.Lower

/-- Which bound of a `for` loop. -/
inductive Bound where
  | lower
  | upper
deriving DecidableEq, Repr

/-- The name of a bound. -/
def Bound.text : Bound → String
  | .lower => "lower"
  | .upper => "upper"

/-- What a reserved name is reserved for. -/
inductive Reservation where
  | entry
  | helper
deriving DecidableEq, Repr

/-- The purpose of a reservation. -/
def Reservation.text : Reservation → String
  | .entry => "the entry point"
  | .helper => "a runtime helper"

/-- A construct that there is no code for. -/
inductive Unsupported where
  | localType (kind : Kind) (name : String) (type : Ty)
  | globalType (name : String) (type : Ty)
  | referenceType (name : String) (type : Ty)
  | literalType (type : Ty)
  | wideConstant (value : Int)
  | globalKind (kind : Kind) (name : String)
  | reservedFunction (name : String) (use : Reservation)
  | registerFunction (name : String)
  | reservedGlobal (name : String) (use : Reservation)
  | registerGlobal (name : String)
  | parameters (function : String) (count max : Nat)
  | parameter (name : String) (max : Nat)
  | arguments (callee : String) (count max : Nat)
  | frame (function : String) (size max : Int64)
  | boundShape (bound : Bound)
  | boundType (bound : Bound) (type : Ty)
  | boundOrder (lower upper : Int)
  | missingExpression
  | binaryOperator (op : Operator)
  | unaryOperator (op : Operator)
deriving DecidableEq, Repr

/-- The wording for a construct without code. -/
def Unsupported.text : Unsupported → String
  | .localType kind name type => kind.text ++ " " ++ name ++ " has type " ++ type.text
  | .globalType name type => "global " ++ name ++ " has type " ++ type.text
  | .referenceType name type => "reference to " ++ name ++ " of type " ++ type.text
  | .literalType type => "constant of type " ++ type.text
  | .wideConstant value => "constant " ++ Text.decimal value ++ " does not fit in 32 bits"
  | .globalKind kind name => kind.text ++ " " ++ name ++ " at global level"
  | .reservedFunction name use => "function name " ++ name ++ " is reserved for " ++ use.text
  | .registerFunction name => "function name " ++ name ++ " is a register name"
  | .reservedGlobal name use => "global " ++ name ++ " is reserved for " ++ use.text
  | .registerGlobal name => "global " ++ name ++ " is a register name"
  | .parameters function count max =>
    "function " ++ function ++ " has " ++ Text.decimal count ++ " parameters, at most " ++
      Text.decimal max ++ " supported"
  | .parameter name max =>
    "parameter " ++ name ++ " does not fit the " ++ Text.decimal max ++ " argument registers"
  | .arguments callee count max =>
    "call to " ++ callee ++ " with " ++ Text.decimal count ++ " arguments, at most " ++
      Text.decimal max ++ " supported"
  | .frame function size max =>
    "function " ++ function ++ " needs a " ++ Text.decimal size.toInt ++ " byte frame, at most " ++
      Text.decimal max.toInt ++ " supported"
  | .boundShape bound => "for-loop " ++ bound.text ++ " bound must be an integer constant"
  | .boundType bound type => "for-loop " ++ bound.text ++ " bound has type " ++ type.text
  | .boundOrder lower upper =>
    "for-loop bounds [" ++ Text.decimal lower ++ ", " ++ Text.decimal upper ++
      ") are not ascending"
  | .missingExpression => "missing expression"
  | .binaryOperator op => "binary operator " ++ op.text
  | .unaryOperator op => "unary operator " ++ op.text

/-- Why generation stops. -/
inductive Fault where
  | unresolved (loc : Location) (name : String)
  | unsupported (loc : Location) (what : Unsupported)
  /-- A constant was declared without a value. -/
  | valueless (name : String)
deriving DecidableEq, Repr

namespace Fault

/-- The name or the construct at fault. -/
def detail : Fault → String
  | .unresolved _ name => name
  | .unsupported _ what => what.text
  | .valueless name => name

/-- The wording of a fault. -/
def message : Fault → String
  | .unresolved loc name => loc.text ++ ": unresolved identifier: " ++ name
  | .unsupported loc what => loc.text ++ ": unsupported construct: " ++ what.text
  | .valueless name => "constant " ++ name ++ " has no value"

end Fault

/-- The part of a program that code is made for. -/
inductive Stage where
  | program
  | function (name : String)
  | entry (name : String)
deriving DecidableEq, Repr

/-- What is said before a fault at a stage. -/
def Stage.lead : Stage → String
  | .program => ""
  | .function name => "error when generating code for function " ++ name ++ ": "
  | .entry name => "error when generating code for " ++ name ++ ": "

/-- A fault and the stage it arose at. -/
structure Failure where
  stage : Stage
  fault : Fault
deriving DecidableEq, Repr

/-- The wording of a failure. -/
def Failure.message (f : Failure) : String := f.stage.lead ++ f.fault.message

end RvBackend.Lower
