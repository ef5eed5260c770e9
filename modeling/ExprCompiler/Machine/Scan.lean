import ExprCompiler.Text.Blank
import ExprCompiler.Text.Integer
import ExprCompiler.Text.Quoted
import ExprCompiler.Word

/-!
Reading integers from the input of a program. White space is skipped; then come an optional sign
and digits, where a leading zero selects the base as in a listing. The character after the number
stays unread.
-/

namespace ExprCompiler

inductive ScanError where
  | endOfInput
  | integerExpected
  | malformed (text : Bytes) (problem : Text.IntegerError)
  | overflow (text : Bytes)
  deriving DecidableEq, Repr

def ScanError.message : ScanError → Bytes
  | .endOfInput => utf8 "EOF"
  | .integerExpected => utf8 "expected integer"
  | .malformed text problem =>
      utf8 "strconv.ParseInt: parsing " ++ Text.quote text ++ utf8 ": " ++ problem.message
  | .overflow text => utf8 "integer overflow on token " ++ text

def skipBlanks (input : Bytes) : Bytes :=
  match input with
  | [] => []
  | lead :: rest =>
      let glyph := Text.firstGlyph lead rest
      if glyph.isBlank then skipBlanks (rest.drop (glyph.bytes.length - 1)) else lead :: rest
termination_by input.length
decreasing_by simp only [List.length_drop, List.length_cons]; omega

structure Taken where
  text : Bytes
  rest : Bytes
  deriving DecidableEq, Repr

namespace Taken

def one (taken : Taken) (belongs : UInt8 → Bool) : Taken :=
  match taken.rest with
  | byte :: rest => if belongs byte then ⟨taken.text ++ [byte], rest⟩ else taken
  | [] => taken

def many (taken : Taken) (belongs : UInt8 → Bool) : Taken :=
  ⟨taken.text ++ taken.rest.takeWhile belongs, taken.rest.dropWhile belongs⟩

end Taken

def isScanSign (byte : UInt8) : Bool := byte == 0x2b || byte == 0x2d

/-- Digits of a base, and underscores. -/
def isScanDigit (base : Nat) (byte : UInt8) : Bool :=
  byte == Text.underscore || (Text.digitValue? byte).any (· < base)

/-- The base that a letter after a leading zero selects. -/
def markedBase? (byte : UInt8) : Option Nat :=
  let letter := Text.asciiLower byte
  if letter = 0x62 then some 2
  else if letter = 0x6f then some 8
  else if letter = 0x78 then some 16
  else none

def takeDigits (signed : Taken) : Except ScanError Unit × Taken :=
  match signed.rest with
  | [] => (.error .endOfInput, signed)
  | 0x30 :: mark :: rest =>
      match markedBase? mark with
      | some base => (.ok (), (⟨signed.text ++ [0x30, mark], rest⟩ : Taken).many (isScanDigit base))
      | none => (.ok (), (⟨signed.text ++ [0x30], mark :: rest⟩ : Taken).many (isScanDigit 8))
  | byte :: _ =>
      if isScanDigit 10 byte then (.ok (), signed.many (isScanDigit 10))
      else (.error .integerExpected, signed)

def readWord (text : Bytes) : Except ScanError Word :=
  match Text.readInteger 64 text with
  | .error problem => .error (.malformed text problem)
  | .ok value =>
      if value < -2147483648 || 2147483647 < value then .error (.overflow text)
      else .ok (BitVec.ofInt 32 value)

/-- Reads one integer; what was taken from the input is gone also after a failure. -/
def scanWord (input : Bytes) : Except ScanError Word × Bytes :=
  let start := skipBlanks input
  if start = [] then (.error .endOfInput, [])
  else
    match takeDigits ((⟨[], start⟩ : Taken).one isScanSign) with
    | (.error problem, taken) => (.error problem, taken.rest)
    | (.ok (), taken) => (readWord taken.text, taken.rest)

end ExprCompiler
