import Quasiquote.Host.Parser

/-!
# Errors of running host code

## Main Definitions

* `Host.EvalError` — what can go wrong while host code runs
* `Host.EvalError.message` — the words for it

## Design Notes

Types appear in errors by their names, as the errors outlive the values.

`tooLarge` is not an error of the program but its end: nothing is returned from there, neither a value nor an
error. It stands among the errors as it ends an evaluation like them and leaves nothing behind.
-/

namespace Quasiquote.Host

/-- What can go wrong while host code runs. -/
inductive EvalError where
  /-- The code cannot be read. -/
  | malformed (cause : ParseError)
  | unsupportedOperands (op : BinaryOp) (left right : String)
  | badOperand (op : UnaryOp) (type : String)
  /-- Two values without an order, compared by the operator `op`. -/
  | unordered (op : String) (left right : String)
  /-- Membership in something that is neither a list nor a string. -/
  | noMembers (type : String)
  /-- Membership of something that is no string in a string. -/
  | noSubstring (type : String)
  | badIndex (type : String)
  | noSubscripts (type : String)
  | indexOutOfRange (type : String)
  | noLength (type : String)
  | badAbs (type : String)
  | badIntArgument (type : String)
  | badFloatArgument (type : String)
  /-- A string, as it is written, that is no integer. -/
  | badIntText (written : String)
  /-- A string, as it is written, that is no float. -/
  | badFloatText (written : String)
  /-- The single argument of `min` or `max` is no list. -/
  | notIterable (type : String)
  | emptySequence (function : String)
  | wrongArity (function : String) (expected given : Nat)
  | overflow
  | zeroDivision
  | negativeShift
  /-- A sequence that no block of memory can hold. The program does not go on from there, so there are
  no words for it. -/
  | tooLarge
  /-- An error that a quoter reports in words of its own. -/
  | raised (text : String)
deriving DecidableEq, Repr

namespace EvalError

/-- A type name between quotes. -/
def quoted (type : String) : String := "\x27" ++ type ++ "\x27"

/-- The text of a type error. -/
def typeError (text : String) : String := "TypeError: " ++ text

/-- The text of the error. -/
def message : EvalError → String
  | malformed cause => cause.message
  | unsupportedOperands op left right =>
    typeError ("unsupported operand type(s) for " ++ op.symbol ++ ": " ++ quoted left ++ " and " ++
      quoted right)
  | badOperand op type =>
    typeError ("bad operand type for unary " ++ op.symbol ++ ": " ++ quoted type)
  | unordered op left right =>
    typeError (quoted op ++ " not supported between instances of " ++ quoted left ++ " and " ++
      quoted right)
  | noMembers type => typeError ("argument of type " ++ quoted type ++ " is not iterable")
  | noSubstring type =>
    typeError ("\x27in <string>\x27 requires string as left operand, not " ++ type)
  | badIndex type => typeError ("indices must be integers, not " ++ type)
  | noSubscripts type => typeError (quoted type ++ " object is not subscriptable")
  | indexOutOfRange type => "IndexError: " ++ type ++ " index out of range"
  | noLength type => typeError ("object of type " ++ quoted type ++ " has no len()")
  | badAbs type => typeError ("bad operand type for abs(): " ++ quoted type)
  | badIntArgument type =>
    typeError ("int() argument must be a string or a number, not " ++ quoted type)
  | badFloatArgument type =>
    typeError ("float() argument must be a string or a number, not " ++ quoted type)
  | badIntText written => "ValueError: invalid literal for int(): " ++ written
  | badFloatText written => "ValueError: could not convert string to float: " ++ written
  | notIterable type => typeError (quoted type ++ " object is not iterable")
  | emptySequence function => "ValueError: " ++ function ++ "() arg is an empty sequence"
  | wrongArity function expected given =>
    typeError (function ++ "() takes exactly " ++ toString expected ++ " argument(s) (" ++
      toString given ++ " given)")
  | overflow => "OverflowError: integer result out of range"
  | zeroDivision => "ZeroDivisionError: division by zero"
  | negativeShift => "ValueError: negative shift count"
  | tooLarge => ""
  | raised text => text

end EvalError

end Quasiquote.Host
