import Quasiquote.Value.Heap
import Quasiquote.Decimal.Reading
import Quasiquote.Host.Error

/-!
# Host arithmetic

Integers have 64 bits and never wrap: a result that does not fit is an error. An operation with a
float takes place among floats.

## Main Definitions

* `Arithmetic.integer` — the operators on two integers
* `Arithmetic.float?` — the operators on two floats
* `Arithmetic.binary?`, `Arithmetic.unary` — the operators on numbers

## Design Notes

An integer operation is computed among all whole numbers and then checked. Powers and shifts that
cannot fit are refused before they are computed.
-/

namespace Quasiquote.Host.Arithmetic

/-- A whole number as the result of an operation. -/
def exact (n : Int) : Except EvalError Number :=
  match Decimal.fits? n with
  | some i => .ok (.int i)
  | none => .error .overflow

/-- A whole number to a power. -/
def signedPower (a : Int) (exponent : Nat) : Int :=
  if a < 0 ∧ exponent % 2 = 1 then -(a.natAbs.pow exponent : Int) else a.natAbs.pow exponent

/-- The least exponent that is refused whatever the base is. -/
def exponentLimit : Int := UInt32.size

/-- An integer to a power. A negative exponent gives a float. -/
def power (a b : Int64) : Except EvalError Number :=
  if b.toInt < 0 then .ok (.float (a.toFloat.pow b.toFloat))
  else if exponentLimit ≤ b.toInt then .error .overflow
  else if 2 ≤ a.toInt.natAbs ∧ 64 ≤ b.toInt then .error .overflow
  else exact (signedPower a.toInt b.toInt.toNat)

/-- An integer shifted to the left. A shift by the width or more is refused. -/
def shiftLeft (a b : Int64) : Except EvalError Number :=
  if b.toInt < 0 then .error .negativeShift
  else if 64 ≤ b.toInt then .error .overflow
  else exact (a.toInt <<< b.toInt.toNat)

/-- An integer shifted to the right, rounding down. -/
def shiftRight (a b : Int64) : Except EvalError Number :=
  if b.toInt < 0 then .error .negativeShift
  else exact (a.toInt >>> min b.toInt.toNat 63)

/-- The quotient of two integers as a float. -/
def divide (a b : Int64) : Except EvalError Number :=
  if b = 0 then .error .zeroDivision else .ok (.float (a.toFloat / b.toFloat))

/-- The quotient of two integers, rounded down. -/
def floorDivide (a b : Int64) : Except EvalError Number :=
  if b = 0 then .error .zeroDivision else exact (a.toInt.fdiv b.toInt)

/-- The remainder that belongs to the quotient rounded down. It is refused where that quotient does
not fit. -/
def modulo (a b : Int64) : Except EvalError Number :=
  if b = 0 then .error .zeroDivision
  else if a = Int64.minValue ∧ b = -1 then .error .overflow
  else exact (a.toInt.fmod b.toInt)

/-- An operator on two integers. -/
def integer (op : BinaryOp) (a b : Int64) : Except EvalError Number :=
  match op with
  | .add => exact (a.toInt + b.toInt)
  | .sub => exact (a.toInt - b.toInt)
  | .mul => exact (a.toInt * b.toInt)
  | .div => divide a b
  | .floorDiv => floorDivide a b
  | .mod => modulo a b
  | .pow => power a b
  | .bitOr => .ok (.int (a ||| b))
  | .bitXor => .ok (.int (a ^^^ b))
  | .bitAnd => .ok (.int (a &&& b))
  | .shiftLeft => shiftLeft a b
  | .shiftRight => shiftRight a b

/-- An operator on two floats, if it applies to floats. -/
def float? (op : BinaryOp) (a b : Float) : Option (Except EvalError Number) :=
  let unlessZero (x : Float) : Except EvalError Number :=
    if b == 0.0 then .error .zeroDivision else .ok (.float x)
  match op with
  | .add => some (.ok (.float (a + b)))
  | .sub => some (.ok (.float (a - b)))
  | .mul => some (.ok (.float (a * b)))
  | .div => some (unlessZero (a / b))
  | .floorDiv => some (unlessZero (a / b).floor)
  | .mod => some (unlessZero (a - b * (a / b).floor))
  | .pow => some (.ok (.float (a.pow b)))
  | _ => none

/-- An operator on two numbers, if it applies to them. -/
def binary? (op : BinaryOp) : Number → Number → Option (Except EvalError Number)
  | .int a, .int b => some (integer op a b)
  | a, b => float? op a.toFloat b.toFloat

/-- An integer without its sign. -/
def absolute : Number → Except EvalError Number
  | .int i => exact i.toInt.natAbs
  | .float f => .ok (.float f.abs)

/-- A sign or a complement before a number. Floats have no complement. -/
def unary? (op : UnaryOp) : Number → Option (Except EvalError Number)
  | .int i =>
    match op with
    | .neg => some (exact (-i.toInt))
    | .pos => some (.ok (.int i))
    | .invert => some (.ok (.int (~~~i)))
  | .float f =>
    match op with
    | .neg => some (.ok (.float (-f)))
    | .pos => some (.ok (.float f))
    | .invert => none

end Quasiquote.Host.Arithmetic
