/-!
Binary floating-point numbers of 64 bits, kept as exact numbers. A fraction is rounded to the
nearest of them, and one half way between two to the one with the even mantissa.
-/

namespace ExprCompiler

inductive Double where
  /-- The number `mantissa * 2 ^ exponent`, with a sign that zero has too. -/
  | finite (negative : Bool) (mantissa : Nat) (exponent : Int)
  | infinite (negative : Bool)
  | notANumber
  deriving DecidableEq, Repr

namespace Double

/-- The mantissa of a number has one bit more than this, unless its exponent is the least. -/
def fractionSize : Nat := Nat.pow 2 52

def leastExponent : Int := -1074

def greatestExponent : Int := 971

def inUnits (num den : Nat) (exponent : Int) : Nat × Nat :=
  if 0 ≤ exponent then (num, den * Nat.pow 2 exponent.toNat)
  else (num * Nat.pow 2 (-exponent).toNat, den)

/-- The integer nearest to a fraction, the even one of two. -/
def roundEven (num den : Nat) : Nat :=
  let whole := num / den
  let twice := 2 * (num % den)
  if twice < den then whole else if den < twice then whole + 1 else whole + whole % 2

/-- The exponent with which a fraction has a mantissa of full size, or the least one. -/
def exponentOf (num den : Nat) : Int :=
  let guess : Int := (Nat.log2 num : Int) - (Nat.log2 den : Int) - 52
  let (top, bottom) := inUnits num den guess
  max leastExponent (if top / bottom < fractionSize then guess - 1 else guess)

def nearest (negative : Bool) (num den : Nat) : Double :=
  let exponent := exponentOf num den
  let (top, bottom) := inUnits num den exponent
  let rounded := roundEven top bottom
  let (mantissa, shift) :=
    if rounded = 2 * fractionSize then (fractionSize, exponent + 1) else (rounded, exponent)
  if greatestExponent < shift then infinite negative else finite negative mantissa shift

def ofInt (value : Int) : Double := nearest (value < 0) value.natAbs 1

def truncate? : Double → Option Int
  | finite negative mantissa exponent =>
      let (num, den) := inUnits mantissa 1 (-exponent)
      some (if negative then -((num / den : Nat) : Int) else (num / den : Nat))
  | _ => none

/-- The integer part of a number in 64 bits; what has none there gives the least integer. -/
def toInt64 (value : Double) : Int :=
  let least : Int := -9223372036854775808
  match value.truncate? with
  | some whole => if least ≤ whole && whole < -least then whole else least
  | none => least

def isAtMost (bound : Nat) : Double → Bool
  | finite negative mantissa exponent =>
      let (num, den) := inUnits mantissa 1 (-exponent)
      negative || num ≤ bound * den
  | infinite negative => negative
  | notANumber => false

def isNatural : Double → Bool
  | finite negative mantissa _ => !negative || mantissa == 0
  | infinite negative => !negative
  | notANumber => false

end Double
end ExprCompiler
