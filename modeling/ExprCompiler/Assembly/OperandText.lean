import ExprCompiler.Assembly.Operand
import ExprCompiler.Text.Blank
import ExprCompiler.Text.Integer
import ExprCompiler.Text.Letter
import ExprCompiler.Text.LowerCase

/-!
Reading operands. An operand is a register, a number, a name, or an address in brackets: a register
or a name with an optional displacement, and an optional size word before the brackets.
-/

namespace ExprCompiler

def isNameStart (code : Nat) : Bool := Text.isLetter code || code == 0x5f || code == 0x2e

def isNamePart (code : Nat) : Bool := isNameStart code || Text.isDigit code

def isName (text : Bytes) : Bool :=
  match Text.glyphs text with
  | [] => false
  | first :: rest => isNameStart first.code && rest.all fun glyph => isNamePart glyph.code

def isQuoteMark (byte : UInt8) : Bool := byte == 0x22 || byte == 0x27 || byte == 0x60

/-- Drops a comment. A semicolon within quotes starts none; `quote` is the open quote. -/
def withoutComment (quote : Option UInt8) : Bytes → Bytes
  | [] => []
  | byte :: rest =>
      match quote with
      | some mark => byte :: withoutComment (if byte = mark then none else some mark) rest
      | none =>
          if byte = 0x3b then []
          else byte :: withoutComment (if isQuoteMark byte then some byte else none) rest

/-- Splits at commas outside quotes and brackets. `depth` counts open brackets and `piece` holds
the bytes of the current piece, last first. -/
def splitPieces (quote : Option UInt8) (depth : Int) (piece : Bytes) : Bytes → List Bytes
  | [] => [Text.trim piece.reverse]
  | byte :: rest =>
      match quote with
      | some mark =>
          splitPieces (if byte = mark then none else some mark) depth (byte :: piece) rest
      | none =>
          if isQuoteMark byte then splitPieces (some byte) depth (byte :: piece) rest
          else if byte = 0x5b then splitPieces none (depth + 1) (byte :: piece) rest
          else if byte = 0x5d then splitPieces none (depth - 1) (byte :: piece) rest
          else if byte = 0x2c && depth == 0 then
            Text.trim piece.reverse :: splitPieces none depth [] rest
          else splitPieces none depth (byte :: piece) rest

/-- The operands of a line, each trimmed; none at all for a blank text. -/
def splitOperands (text : Bytes) : List Bytes :=
  let body := Text.trim text
  if body = [] then [] else splitPieces none 0 [] body

inductive OperandError where
  | unterminated (text : Bytes)
  | misplacedSize (size : OperandSize)
  | invalidDisplacement (address : Bytes)
  | invalidAddress (address : Bytes)
  | invalidOperand (text : Bytes)
  deriving DecidableEq, Repr

def OperandError.message : OperandError → Bytes
  | .unterminated text => utf8 "unterminated memory operand '" ++ text ++ utf8 "'"
  | .misplacedSize size => utf8 "size '" ++ size.text ++ utf8 "' on a non-memory operand"
  | .invalidDisplacement address => utf8 "invalid displacement in '[" ++ address ++ utf8 "]'"
  | .invalidAddress address => utf8 "invalid address '[" ++ address ++ utf8 "]'"
  | .invalidOperand text => utf8 "invalid operand '" ++ text ++ utf8 "'"

def readRegister? (text : Bytes) : Option Register := Register.ofText? (Text.lowerCase text)

def isSign (byte : UInt8) : Bool := byte == 0x2b || byte == 0x2d

/-- Splits an address at its first sign. A sign in front does not count. -/
def splitDisplacement (address : Bytes) : Bytes × Option Bytes :=
  let base := address.takeWhile (!isSign ·)
  let rest := address.dropWhile (!isSign ·)
  if base = [] || rest = [] then (address, none) else (Text.trim base, some rest)

def readBase? (text : Bytes) : Option AddressBase :=
  match readRegister? text with
  | some register => some (.register register)
  | none => if isName text then some (.label text) else none

/-- Reads a displacement, in which spaces do not count. -/
def readDisplacement : Option Bytes → Option Int
  | none => some 0
  | some text => (Text.readInteger 64 (text.filter (· != 0x20))).toOption

def readAddress (size : Option OperandSize) (address : Bytes) : Except OperandError Operand :=
  let (base, rest) := splitDisplacement address
  match readDisplacement rest with
  | none => .error (.invalidDisplacement address)
  | some displacement =>
      match readBase? base with
      | some start => .ok (.memory size start displacement)
      | none => .error (.invalidAddress address)

def splitSize (text : Bytes) : Option OperandSize × Bytes :=
  let (head, rest) := Text.splitHead text
  match OperandSize.ofText? (Text.lowerCase head) with
  | some size => if rest = [] then (none, text) else (some size, rest)
  | none => (none, text)

def readPlainOperand (text : Bytes) : Except OperandError Operand :=
  match readRegister? text with
  | some register => .ok (.register register)
  | none =>
      match Text.readInteger 64 text with
      | .ok value => .ok (.immediate value)
      | .error _ => if isName text then .ok (.label text) else .error (.invalidOperand text)

def readOperand (text : Bytes) : Except OperandError Operand :=
  let (size, body) := splitSize (Text.trim text)
  match body with
  | 0x5b :: inner =>
      if inner.getLast? = some 0x5d then readAddress size (Text.trim inner.dropLast)
      else .error (.unterminated body)
  | _ =>
      match size with
      | some width => .error (.misplacedSize width)
      | none => readPlainOperand body

end ExprCompiler
