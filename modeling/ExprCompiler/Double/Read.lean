import ExprCompiler.Double.Basic
import ExprCompiler.Text.Integer

/-!
Literals of floating-point numbers: decimal digits with an optional point and exponent, or
hexadecimal digits with an exponent of two. Underscores may stand between digits. A literal whose
value is too large for any number is none.
-/

namespace ExprCompiler.Double

/-- Digits before and after a point, of which one at least is needed. -/
structure Mantissa where
  digits : Bytes
  places : Nat

def readMantissa? (isDigit : UInt8 → Bool) (text : Bytes) : Option (Mantissa × Bytes) :=
  let whole := text.takeWhile isDigit
  let (part, rest) := match text.dropWhile isDigit with
    | 0x2e :: after => (after.takeWhile isDigit, after.dropWhile isDigit)
    | after => ([], after)
  if whole = [] && part = [] then none else some (⟨whole ++ part, part.length⟩, rest)

def exponentValue? (text : Bytes) : Option Int :=
  let (negative, digits) := Text.splitSign text
  let value := digits.foldl (fun value byte => value * 10 + (Text.digitValue? byte).getD 0) 0
  if digits = [] || !digits.all Text.isDecimalByte then none
  else some (if negative then -(value : Int) else value)

/-- An exponent, which is missing if the text ends. -/
def decimalExponent? : Bytes → Option Int
  | [] => some 0
  | mark :: rest => if Text.asciiLower mark = 0x65 then exponentValue? rest else none

def binaryExponent? : Bytes → Option Int
  | [] => none
  | mark :: rest => if Text.asciiLower mark = 0x70 then exponentValue? rest else none

def digitsValue (base : Nat) (digits : Bytes) : Nat :=
  digits.foldl (fun value byte => value * base + (Text.digitValue? byte).getD 0) 0

def inRange? : Double → Option Double
  | infinite _ => none
  | value => some value

/-- The number `value * 10 ^ power`. The bounds keep the exact computation small. -/
def ofDecimal? (negative : Bool) (value : Nat) (power : Int) : Option Double :=
  let size : Int := (Text.decimalNat value).length + power
  if value = 0 || size < -330 then some (finite negative 0 leastExponent)
  else if 310 < size then none
  else if 0 ≤ power then inRange? (nearest negative (value * Nat.pow 10 power.toNat) 1)
  else inRange? (nearest negative value (Nat.pow 10 (-power).toNat))

/-- The number `value * 2 ^ power`. The bounds keep the exact computation small. -/
def ofBinary? (negative : Bool) (value : Nat) (power : Int) : Option Double :=
  let size : Int := (Nat.log2 value : Int) + power
  if value = 0 || size < -1100 then some (finite negative 0 leastExponent)
  else if 1024 < size then none
  else
    let (num, den) := inUnits value 1 (-power)
    inRange? (nearest negative num den)

def named? (negative signed : Bool) (word : Bytes) : Option Double :=
  let lowered := word.map Text.asciiLower
  if lowered = utf8 "inf" || lowered = utf8 "infinity" then some (infinite negative)
  else if lowered = utf8 "nan" && !signed then some notANumber
  else none

def readUnsigned? (negative : Bool) (literal : Bytes) : Option Double :=
  match literal with
  | 0x30 :: mark :: first :: rest =>
      if Text.asciiLower mark = 0x78 then do
        let (mantissa, after) ← readMantissa? Text.isHexByte (first :: rest)
        let exponent ← binaryExponent? after
        ofBinary? negative (digitsValue 16 mantissa.digits) (exponent - 4 * mantissa.places)
      else readDecimal? literal
  | _ => readDecimal? literal
where
  readDecimal? (literal : Bytes) : Option Double := do
    let (mantissa, after) ← readMantissa? Text.isDecimalByte literal
    let exponent ← decimalExponent? after
    ofDecimal? negative (digitsValue 10 mantissa.digits) (exponent - mantissa.places)

def read? (literal : Bytes) : Option Double :=
  let (negative, unsigned) := Text.splitSign literal
  match named? negative (unsigned.length != literal.length) unsigned with
  | some value => some value
  | none =>
      if unsigned.contains Text.underscore && !Text.underscoresPlaced unsigned then none
      else readUnsigned? negative (unsigned.filter (· != Text.underscore))

end ExprCompiler.Double
