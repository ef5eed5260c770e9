import ExprCompiler.Double.Basic
import ExprCompiler.Text.Bytes

/-!
The decimal text of a floating-point number: the fewest digits that are nearer to it than to any
other number, and of those the nearest. Large and small numbers are written with an exponent.
-/

namespace ExprCompiler.Double

/-- The number `0.d₁d₂… * 10 ^ point` for the digits `d₁d₂…` of `digits`. -/
structure Decimal where
  digits : Bytes
  point : Int
  deriving DecidableEq, Repr

/-- A number and the ends of the interval that is rounded to it, over a common denominator. -/
structure Interval where
  low : Nat
  value : Nat
  high : Nat
  den : Nat
  /-- Whether the ends belong to it. -/
  closed : Bool

/-- The interval of a number. Below a power of two the numbers are twice as dense. -/
def interval (mantissa : Nat) (exponent : Int) : Interval :=
  let below := if mantissa = fractionSize && leastExponent < exponent then 1 else 2
  let (scale, den) := inUnits 1 1 (2 - exponent)
  { low := (4 * mantissa - below) * scale
    value := 4 * mantissa * scale
    high := (4 * mantissa + 2) * scale
    den := den
    closed := mantissa % 2 == 0 }

/-- How many decimal places a fraction less than one has to be moved to the left to reach one
tenth. -/
def leadingZeros (den : Nat) : Nat → Nat → Nat
  | 0, _ => 0
  | fuel + 1, num => if den ≤ num * 10 then 0 else leadingZeros den fuel (num * 10) + 1

/-- The place of the point before which all digits of a fraction stand. -/
def pointOf (num den : Nat) : Int :=
  if den ≤ num then (Text.decimalNat (num / den)).length else -(leadingZeros den 400 num : Int)

/-- Whether `count` units of `10 ^ power` lie in an interval. -/
def Interval.holds (range : Interval) (count : Nat) (power : Int) : Bool :=
  let (left, scale) :=
    if 0 ≤ power then (count * Nat.pow 10 power.toNat * range.den, 1)
    else (count * range.den, Nat.pow 10 (-power).toNat)
  if range.closed then range.low * scale ≤ left && left ≤ range.high * scale
  else range.low * scale < left && left < range.high * scale

/-- The number of whole units of `10 ^ power` in a value, and whether the next is nearer. -/
def Interval.units (range : Interval) (power : Int) : Nat × Bool :=
  let (num, den) :=
    if 0 ≤ power then (range.value, range.den * Nat.pow 10 power.toNat)
    else (range.value * Nat.pow 10 (-power).toNat, range.den)
  let twice := 2 * (num % den)
  (num / den, den < twice || (den == twice && num / den % 2 == 1))

def significant (digits : Bytes) : Bytes := (digits.reverse.dropWhile (· == 0x30)).reverse

def decimalOf (count : Nat) (power : Int) : Decimal :=
  let digits := Text.decimalNat count
  ⟨significant digits, digits.length + power⟩

/-- Tries numbers of digits from `size` on. With 17 digits one always lies in the interval. -/
def searchDigits (range : Interval) (point : Int) : Nat → Nat → Decimal
  | 0, size => decimalOf (range.units (point - size)).1 (point - size)
  | fuel + 1, size =>
      let power := point - size
      let (lower, upward) := range.units power
      let (first, second) := if upward then (lower + 1, lower) else (lower, lower + 1)
      if range.holds first power then decimalOf first power
      else if range.holds second power then decimalOf second power
      else searchDigits range point fuel (size + 1)

def shortest (mantissa : Nat) (exponent : Int) : Decimal :=
  let range := interval mantissa exponent
  searchDigits range (pointOf range.value range.den) 17 1

def zeros (count : Int) : Bytes := List.replicate count.toNat 0x30

def Decimal.positional (number : Decimal) : Bytes :=
  let size : Int := number.digits.length
  if number.point ≤ 0 then utf8 "0." ++ zeros (-number.point) ++ number.digits
  else if size ≤ number.point then number.digits ++ zeros (number.point - size)
  else
    number.digits.take number.point.toNat ++ utf8 "." ++ number.digits.drop number.point.toNat

/-- One digit before the point, and an exponent of two digits at least. -/
def Decimal.scientific (number : Decimal) : Bytes :=
  let power := number.point - 1
  let part := number.digits.drop 1
  let digits := Text.decimalNat power.natAbs
  number.digits.take 1 ++ (if part = [] then [] else utf8 "." ++ part) ++
    (if power < 0 then utf8 "e-" else utf8 "e+") ++
    (if digits.length < 2 then utf8 "0" ++ digits else digits)

/-- Numbers from a ten-thousandth to a million are written without an exponent. -/
def Decimal.text (number : Decimal) : Bytes :=
  if number.point < -3 || 6 < number.point then number.scientific else number.positional

def text : Double → Bytes
  | finite negative mantissa exponent =>
      (if negative then utf8 "-" else []) ++
        (if mantissa = 0 then utf8 "0" else (shortest mantissa exponent).text)
  | infinite true => utf8 "-Inf"
  | infinite false => utf8 "+Inf"
  | notANumber => utf8 "NaN"

end ExprCompiler.Double
