import ExprCompiler.Text.Bytes

/-!
Integer literals with an optional sign, a base given by their first characters and underscores
between digits: `0x`, `0o` and `0b` select base 16, 8 and 2, another leading zero base 8.
-/

namespace ExprCompiler.Text

inductive IntegerError where
  | invalidForm
  | outOfRange
  deriving DecidableEq, Repr

def IntegerError.message : IntegerError → Bytes
  | .invalidForm => utf8 "invalid syntax"
  | .outOfRange => utf8 "value out of range"

def underscore : UInt8 := 0x5f

/-- Value of a digit in the widest base, letters of either case counting from ten. -/
def digitValue? (byte : UInt8) : Option Nat :=
  let value := byte.toNat
  if 48 ≤ value && value ≤ 57 then some (value - 48)
  else if 97 ≤ value && value ≤ 122 then some (value - 87)
  else if 65 ≤ value && value ≤ 90 then some (value - 55)
  else none

def asciiLower (byte : UInt8) : UInt8 :=
  if 65 ≤ byte.toNat && byte.toNat ≤ 90 then byte + 32 else byte

/-- Reads digits of a base from left to right, skipping underscores, and stops at the first digit
that carries the value past `limit`. -/
def readDigits (base limit : Nat) : Nat → Bytes → Except IntegerError Nat
  | value, [] => .ok value
  | value, byte :: rest =>
      if byte = underscore then readDigits base limit value rest
      else
        match digitValue? byte with
        | none => .error .invalidForm
        | some digit =>
            if base ≤ digit then .error .invalidForm
            else if limit < value * base + digit then .error .outOfRange
            else readDigits base limit (value * base + digit) rest

/-- The base that the first characters of an unsigned literal select, and its digits. -/
def splitBase : Bytes → Nat × Bytes
  | 0x30 :: mark :: digit :: rest =>
      let letter := asciiLower mark
      if letter = 0x62 then (2, digit :: rest)
      else if letter = 0x6f then (8, digit :: rest)
      else if letter = 0x78 then (16, digit :: rest)
      else (8, mark :: digit :: rest)
  | 0x30 :: rest => (8, rest)
  | text => (10, text)

inductive UnderscoreContext where
  | other
  | digit
  | underscore
  deriving DecidableEq

def underscoresFit (isDigit : UInt8 → Bool) : UnderscoreContext → Bytes → Bool
  | context, [] => context ≠ .underscore
  | context, byte :: rest =>
      if isDigit byte then underscoresFit isDigit .digit rest
      else if byte = underscore then
        context = .digit && underscoresFit isDigit .underscore rest
      else context ≠ .underscore && underscoresFit isDigit .other rest

def isDecimalByte (byte : UInt8) : Bool := 48 ≤ byte.toNat && byte.toNat ≤ 57

def isHexByte (byte : UInt8) : Bool :=
  isDecimalByte byte || (97 ≤ (asciiLower byte).toNat && (asciiLower byte).toNat ≤ 102)

/-- Whether every underscore of an unsigned literal stands between digits, the base mark counting
as a digit. -/
def underscoresPlaced : Bytes → Bool
  | 0x30 :: mark :: rest =>
      let letter := asciiLower mark
      if letter = 0x78 then underscoresFit isHexByte .digit rest
      else if letter = 0x62 || letter = 0x6f then underscoresFit isDecimalByte .digit rest
      else underscoresFit isDecimalByte .other (0x30 :: mark :: rest)
  | text => underscoresFit isDecimalByte .other text

def readUnsigned (limit : Nat) (text : Bytes) : Except IntegerError Nat :=
  if text = [] then .error .invalidForm
  else
    let (base, digits) := splitBase text
    match readDigits base limit 0 digits with
    | .error problem => .error problem
    | .ok value =>
        if text.contains underscore && !underscoresPlaced text then .error .invalidForm
        else .ok value

def splitSign : Bytes → Bool × Bytes
  | 0x2b :: rest => (false, rest)
  | 0x2d :: rest => (true, rest)
  | text => (false, text)

/-- Reads a signed literal into the two's complement range of `bits` bits. -/
def readInteger (bits : Nat) (text : Bytes) : Except IntegerError Int :=
  let (negative, digits) := splitSign text
  match readUnsigned (Nat.pow 2 bits - 1) digits with
  | .error problem => .error problem
  | .ok value =>
      let bound := Nat.pow 2 (bits - 1)
      if negative then if bound < value then .error .outOfRange else .ok (-(value : Int))
      else if bound ≤ value then .error .outOfRange else .ok value

end ExprCompiler.Text
