import ExprCompiler.Double.Read
import ExprCompiler.Double.Shortest

/-!
The scalars of YAML. How a plain scalar is spelled tells whether it is a null, a boolean, a number
or a text. A number without a point is an integer, which may have a base mark; one with a point is
a fraction. A number that does not fit 64 bits is a text.
-/

namespace ExprCompiler.Yaml

inductive Scalar where
  | null
  | bool (flag : Bool)
  | int (value : Int)
  | float (value : Double)
  | text (content : Bytes)
  deriving DecidableEq, Repr

def wordScalars : List (List String × Scalar) :=
  [(["null", "Null", "NULL", "~"], .null),
    (["true", "True", "TRUE"], .bool true),
    (["false", "False", "FALSE"], .bool false),
    ([".inf", ".Inf", ".INF"], .float (.infinite false)),
    (["-.inf", "-.Inf", "-.INF"], .float (.infinite true)),
    ([".nan", ".NaN", ".NAN"], .float .notANumber)]

/-- The digits of an unsigned integer and their base; a leading zero selects base 8. -/
def splitBase : Bytes → Nat × Bytes
  | 0x30 :: 0x78 :: digits => (16, digits)
  | 0x30 :: 0x6f :: digits => (8, digits)
  | 0x30 :: 0x62 :: digits => (2, digits)
  | 0x30 :: digit :: digits => (8, digit :: digits)
  | digits => (10, digits)

def hasBaseMark (digits : Bytes) : Bool :=
  match digits with
  | 0x30 :: mark :: _ => mark == 0x78 || mark == 0x6f || mark == 0x62
  | _ => false

def digitsValue? (base : Nat) (digits : Bytes) : Option Nat :=
  if digits = [] then none
  else
    digits.foldlM
      (fun value byte =>
        (Text.digitValue? byte).bind fun digit =>
          if digit < base then some (value * base + digit) else none)
      0

def dropByte (byte : UInt8) (text : Bytes) : Bytes :=
  if text.head? = some byte then text.drop 1 else text

/-- The integer with a sign, if it fits 64 bits: unsigned ones without a minus, signed ones with
one. -/
def intOf? (negative : Bool) (digits : Bytes) : Option Scalar :=
  let (base, row) := splitBase digits
  (digitsValue? base row).bind fun value =>
    if negative then
      if value ≤ Nat.pow 2 63 then some (.int (-(value : Int))) else none
    else if value < Nat.pow 2 64 then some (.int value)
    else none

/-- Reads a plain scalar as a number. Underscores in it are skipped. -/
def number? (plain : Bytes) : Option Scalar :=
  let points := plain.count 0x2e
  let negative := plain.head? = some 0x2d
  let digits := (dropByte 0x2d (dropByte 0x2b plain)).filter (· != Text.underscore)
  if plain.head? = some Text.underscore || 1 < points then none
  else if points = 1 && !hasBaseMark digits then
    (Double.read? (if negative then 0x2d :: digits else digits)).map Scalar.float
  else intOf? negative digits

namespace Scalar

def ofPlain (plain : Bytes) : Scalar :=
  match wordScalars.find? fun words => words.1.any fun word => utf8 word == plain with
  | some words => words.2
  | none => (number? plain).getD (.text plain)

/-- A scalar written out; null has no text of its own. -/
def written : Scalar → Bytes
  | null => []
  | bool true => utf8 "true"
  | bool false => utf8 "false"
  | int value => Text.decimal value
  | float value => value.text
  | text content => content

end Scalar
end ExprCompiler.Yaml
