/-!
# Decimal numerals

Reading the decimal numerals of the host: whole numbers in some base, and floating-point numerals.

## Main Definitions

* `digit?`, `natural?` — a digit, and a row of digits
* `integer?` — a whole number of 64 bits with an optional sign
* `float?` — a floating-point numeral

## Design Notes

A floating-point numeral is read as a whole number times a power of ten and rounded once. Powers
that lie far outside the range of a double are not computed: their result is zero or infinite
whatever the digits are.
-/

namespace Quasiquote.Decimal

/-- The value of a digit in a base up to sixteen. -/
def digit? (base : Nat) (c : Char) : Option Nat :=
  let value :=
    if c.isDigit then some (c.toNat - '0'.toNat)
    else if 'a' ≤ c ∧ c ≤ 'f' then some (c.toNat - 'a'.toNat + 10)
    else if 'A' ≤ c ∧ c ≤ 'F' then some (c.toNat - 'A'.toNat + 10)
    else none
  value.filter (· < base)

/-- The number that a row of digits denotes with the digits already read in front of it. -/
def naturalFrom? (base : Nat) (read : Nat) : List Char → Option Nat
  | [] => some read
  | c :: rest =>
    match digit? base c with
    | some d => naturalFrom? base (read * base + d) rest
    | none => none

/-- The number that a row of digits denotes. It has at least one digit, and nothing else. -/
def natural? (base : Nat) (text : List Char) : Option Nat :=
  if text.isEmpty then none else naturalFrom? base 0 text

/-- A whole number as one of 64 bits, if it is in range. -/
def fits? (n : Int) : Option Int64 :=
  if Int64.minValue.toInt ≤ n ∧ n ≤ Int64.maxValue.toInt then some (Int64.ofInt n) else none

/-- The sign at the beginning of a text, and the rest. -/
def splitSign : List Char → Bool × List Char
  | '-' :: rest => (true, rest)
  | '+' :: rest => (false, rest)
  | text => (false, text)

/-- A whole number of 64 bits: digits with at most one sign before them. -/
def integer? (text : List Char) : Option Int64 :=
  let (negative, digits) := splitSign text
  (natural? 10 digits).bind fun n => fits? (if negative then -(n : Int) else n)

/-- The double nearest to `digits * 10 ^ exponent`. -/
def scale (digits : Nat) (exponent : Int) : Float :=
  let size : Int := (Nat.toDigits 10 digits).length + exponent
  if digits = 0 ∨ size < -400 then 0.0
  else if 400 < size then 1.0 / 0.0
  else if exponent < 0 then Float.ofScientific digits true exponent.natAbs
  else Float.ofScientific digits false exponent.natAbs

/-- The exponent at the end of a numeral, zero if there is none. -/
def exponent? : List Char → Option Int
  | [] => some 0
  | mark :: rest =>
    if mark = 'e' ∨ mark = 'E' then
      let (negative, digits) := splitSign rest
      (natural? 10 digits).map fun n => if negative then -(n : Int) else n
    else none

/-- A numeral without a sign: digits with at most one point among them or at either end, and an
exponent. -/
def magnitude? (text : List Char) : Option Float :=
  let whole := text.takeWhile Char.isDigit
  let behind := text.dropWhile Char.isDigit
  let fraction :=
    match behind with
    | '.' :: rest => rest.takeWhile Char.isDigit
    | _ => []
  let tail :=
    match behind with
    | '.' :: rest => rest.dropWhile Char.isDigit
    | _ => behind
  (exponent? tail).bind fun e =>
    (natural? 10 (whole ++ fraction)).map fun n => scale n (e - fraction.length)

/-- The names of the values that are not numerals, in lower case. -/
def special? (text : List Char) : Option Float :=
  let name := String.ofList (text.map Char.toLower)
  if name = "inf" ∨ name = "infinity" then some (1.0 / 0.0)
  else if name = "nan" then some (0.0 / 0.0)
  else none

/-- A floating-point numeral, or one of the names `inf`, `infinity` and `nan` in any case, with at
most one sign before it. -/
def float? (text : List Char) : Option Float :=
  let (negative, digits) := splitSign text
  ((magnitude? digits).or (special? digits)).map fun x => if negative then -x else x

end Quasiquote.Decimal
