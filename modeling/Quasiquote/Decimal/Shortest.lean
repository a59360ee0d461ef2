/-!
# The shortest decimal of a double

A double is written with the fewest digits that read back to it; of several such decimals the
nearest to its exact value is taken.

## Main Definitions

* `Decimal.Binary` — a positive finite double as a whole number times a power of two
* `Decimal.shortest` — the shortest decimal that rounds to it
* `Decimal.FloatStyle`, `Decimal.FloatStyle.render` — how a decimal is laid out, and its text

## Design Notes

All arithmetic is on natural numbers. For one digit, two digits and so on, the two neighbours of the
exact value on the grid of that many digits are tried; the first grid on which one of them rounds
back decides. Seventeen digits are always enough.
-/

namespace Quasiquote.Decimal

/-- A positive finite double: `mantissa * 2 ^ exponent`. -/
structure Binary where
  mantissa : Nat
  exponent : Int
  /-- The next double below is only half as far away as the next one above. -/
  narrow : Bool
deriving DecidableEq, Repr

namespace Binary

/-- The magnitude of a finite double that is not zero, from its bits. -/
def ofBits (bits : UInt64) : Binary :=
  let field := ((bits >>> 52) &&& 0x7ff).toNat
  let fraction := (bits &&& 0xfffffffffffff).toNat
  if field = 0 then ⟨fraction, -1074, false⟩
  else ⟨fraction + 0x10000000000000, field - 1075, fraction == 0 && field > 1⟩

end Binary

/-- The digits of a decimal and the place of its point: the value is `0.d₁d₂… * 10 ^ point`. -/
structure Digits where
  digits : List Char
  point : Int
deriving DecidableEq, Repr

/-- Ten or two to a power that may be negative, as numerator and denominator. -/
def ratio (base : Nat) (power : Int) : Nat × Nat :=
  if power < 0 then (1, base.pow power.natAbs) else (base.pow power.natAbs, 1)

/-- The number of digits before the point of a value, zero or negative if it is below one tenth. -/
def magnitude (x : Binary) : Int :=
  let scale := ratio 2 x.exponent
  ((Nat.toDigits 10 (x.mantissa * scale.1 * Nat.pow 10 400 / scale.2)).length : Int) - 400

/-- The decimal with `count` digits, the first of them before the point by `size` places, that is
nearest to `x`, if one of this many digits rounds to `x`. It is given as a multiple of the last
digit's unit. A tie goes up.

The bounds between which everything rounds to `x` belong to that range only if the mantissa is
even. -/
def onGrid? (x : Binary) (size : Int) (count : Nat) : Option Nat :=
  let two := ratio 2 (x.exponent - 2)
  let ten := ratio 10 (count - size)
  let unit := two.1 * ten.1
  let whole := two.2 * ten.2
  let value := 4 * x.mantissa * unit
  let low := (4 * x.mantissa - if x.narrow then 1 else 2) * unit
  let high := (4 * x.mantissa + 2) * unit
  let inside (n : Nat) : Bool :=
    if x.mantissa % 2 = 0 then low ≤ n * whole && n * whole ≤ high
    else low < n * whole && n * whole < high
  let below := value / whole
  let above := below + 1
  match inside below, inside above with
  | true, true => some (if 2 * value < (2 * below + 1) * whole then below else above)
  | true, false => some below
  | false, true => some above
  | false, false => none

/-- The first grid from `count` digits on, trying `tries` of them, that has a decimal for `x`. -/
def search (x : Binary) (size : Int) : Nat → Nat → Nat × Nat
  | 0, count => (0, count)
  | tries + 1, count =>
    match onGrid? x size count with
    | some n => (n, count)
    | none => search x size tries (count + 1)

/-- A row of digits without the zeros at its end. -/
def trimZeros (digits : List Char) : List Char := (digits.reverse.dropWhile (· == '0')).reverse

/-- The shortest decimal that rounds to `x`. -/
def shortest (x : Binary) : Digits :=
  let size := magnitude x
  let (n, count) := search x size 17 1
  let digits := Nat.toDigits 10 n
  { digits := trimZeros digits, point := size + digits.length - count }

/-! ### Layout -/

/-- How floating-point values are laid out. -/
structure FloatStyle where
  /-- The least exponent of a value that is written without an exponent. -/
  leastPlain : Int
  /-- The greatest such exponent. -/
  greatestPlain : Int
  point : Char
  exponentMark : Char
  infinity : String
  notANumber : String

namespace FloatStyle

/-- A value written without an exponent, with at least one digit on each side of the point. -/
def plain (style : FloatStyle) (d : Digits) : List Char :=
  if d.point ≤ 0 then
    '0' :: style.point :: (List.replicate d.point.natAbs '0' ++ d.digits)
  else
    let whole := d.point.natAbs
    let before := d.digits.take whole ++ List.replicate (whole - d.digits.length) '0'
    let behind := d.digits.drop whole
    before ++ style.point :: (if behind.isEmpty then ['0'] else behind)

/-- A value written with an exponent, and with a point only if it has several digits. -/
def exponential (style : FloatStyle) (d : Digits) : List Char :=
  let behind := d.digits.drop 1
  d.digits.take 1 ++ (if behind.isEmpty then [] else style.point :: behind) ++
    style.exponentMark :: (toString (d.point - 1)).toList

/-- The text of a decimal. -/
def layout (style : FloatStyle) (d : Digits) : List Char :=
  if style.leastPlain ≤ d.point - 1 ∧ d.point - 1 ≤ style.greatestPlain then style.plain d
  else style.exponential d

/-- The text of a double. -/
def render (style : FloatStyle) (x : Float) : String :=
  let bits := x.toBits
  let sign := if bits >>> 63 = 1 then ['-'] else []
  let magnitude := bits &&& 0x7fffffffffffffff
  if magnitude > 0x7ff0000000000000 then style.notANumber
  else if magnitude = 0x7ff0000000000000 then String.ofList (sign ++ style.infinity.toList)
  else if magnitude = 0 then String.ofList (sign ++ ['0', style.point, '0'])
  else String.ofList (sign ++ style.layout (shortest (Binary.ofBits magnitude)))

end FloatStyle

end Quasiquote.Decimal
