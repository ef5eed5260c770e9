import ExprCompiler.Token.Basic
import ExprCompiler.Text.Integer
import ExprCompiler.Issue

/-!
From source text to tokens. A source is cut into pieces first, always taking the longest piece that
some class of tokens or blanks matches; a walk over the pieces then gives every token and every
error its place. Nothing stops the cut: what no class matches becomes an error of its own.
-/

namespace ExprCompiler

inductive Piece where
  | newline
  | blanks (text : Bytes)
  /-- An identifier or keyword. -/
  | word (text : Bytes)
  | number (text : Bytes)
  /-- A text literal, given without its quotes. -/
  | quoted (content : Bytes)
  | operator (kind : TokenKind) (text : Bytes)
  /-- A quote that no other quote on its line closes. -/
  | openQuote
  /-- A character that starts no token. -/
  | stray (glyph : Text.Glyph)
  deriving DecidableEq, Repr

namespace Piece

def text : Piece → Bytes
  | newline => [10]
  | blanks text => text
  | word text => text
  | number text => text
  | quoted content => Text.doubleQuote :: (content ++ [Text.doubleQuote])
  | operator _ text => text
  | openQuote => [Text.doubleQuote]
  | stray glyph => glyph.bytes

def isBlank (byte : UInt8) : Bool := byte == 0x20 || byte == 9 || byte == 13

def isWordStart (byte : UInt8) : Bool :=
  byte == 0x5f || (0x61 ≤ byte && byte ≤ 0x7a) || (0x41 ≤ byte && byte ≤ 0x5a)

def isDigit (byte : UInt8) : Bool := 0x30 ≤ byte && byte ≤ 0x39

def isWordPart (byte : UInt8) : Bool := isWordStart byte || isDigit byte

def isNumberPart (byte : UInt8) : Bool := isDigit byte || byte == 0x5f

def isQuotable (byte : UInt8) : Bool := byte != Text.doubleQuote && byte != 10

/-- Operators of two characters, by their first; the second is always an equals sign. -/
def longOperator? (byte : UInt8) : Option TokenKind :=
  if byte = 0x3d then some .equalEqual
  else if byte = 0x21 then some .bangEqual
  else if byte = 0x3a then some .colonEqual
  else if byte = 0x3e then some .greaterEqual
  else if byte = 0x3c then some .lessEqual
  else none

def shortOperator? (byte : UInt8) : Option TokenKind :=
  if byte = 0x28 then some .leftParen
  else if byte = 0x29 then some .rightParen
  else if byte = 0x7b then some .leftBrace
  else if byte = 0x7d then some .rightBrace
  else if byte = 0x3b then some .semicolon
  else if byte = 0x2b then some .plus
  else if byte = 0x2d then some .minus
  else if byte = 0x2a then some .star
  else if byte = 0x2f then some .slash
  else if byte = 0x25 then some .percent
  else if byte = 0x3e then some .greater
  else if byte = 0x3c then some .less
  else none

/-- The operator at the front of `byte :: rest`, the longer one if two fit. -/
def operator? (byte : UInt8) (rest : Bytes) : Option Piece :=
  match longOperator? byte, rest with
  | some kind, 0x3d :: _ => some (.operator kind [byte, 0x3d])
  | _, _ => (shortOperator? byte).map fun kind => .operator kind [byte]

/-- The text literal after an opening quote, if it is closed on its line. -/
def afterQuote (rest : Bytes) : Piece :=
  match rest.dropWhile isQuotable with
  | 0x22 :: _ => .quoted (rest.takeWhile isQuotable)
  | _ => .openQuote

def first (byte : UInt8) (rest : Bytes) : Piece :=
  if isWordStart byte then .word (byte :: rest.takeWhile isWordPart)
  else if isDigit byte then .number (byte :: rest.takeWhile isNumberPart)
  else if byte = Text.doubleQuote then afterQuote rest
  else if byte = 10 then .newline
  else if isBlank byte then .blanks (byte :: rest.takeWhile isBlank)
  else (operator? byte rest).getD (.stray (Text.firstGlyph byte rest))

end Piece

def pieces (source : Bytes) : List Piece :=
  match source with
  | [] => []
  | byte :: rest =>
      Piece.first byte rest :: pieces (rest.drop ((Piece.first byte rest).text.length - 1))
termination_by source.length
decreasing_by simp only [List.length_drop, List.length_cons]; omega

structure Cursor where
  offset : Nat := 0
  line : Nat := 0
  /-- Offset of the first byte of the current line. -/
  lineStart : Nat := 0
  deriving DecidableEq, Repr

namespace Cursor

def advance (cursor : Cursor) : Piece → Cursor
  | .newline =>
      { offset := cursor.offset + 1, line := cursor.line + 1, lineStart := cursor.offset + 1 }
  | piece => { cursor with offset := cursor.offset + piece.text.length }

def offsets (cursor : Cursor) (width : Nat) : Span :=
  ⟨cursor.offset, (cursor.offset : Int) + width - 1⟩

def position (cursor : Cursor) (width : Nat) : Position :=
  ⟨cursor.line, ⟨(cursor.offset : Int) - cursor.lineStart,
    (cursor.offset : Int) + width - 1 - cursor.lineStart⟩⟩

end Cursor

inductive LexErrorKind where
  | unexpectedSymbol
  | valueOutOfRange
  deriving DecidableEq, Repr

namespace LexErrorKind

def ofCode? (code : Int) : Option LexErrorKind :=
  if code = 0 then some .unexpectedSymbol else if code = 1 then some .valueOutOfRange else none

def name : LexErrorKind → Bytes
  | .unexpectedSymbol => utf8 "UnexpectedSymbol"
  | .valueOutOfRange => utf8 "ValueOutOfRange"

def nameOfCode (code : Int) : Bytes :=
  match ofCode? code with
  | some kind => kind.name
  | none => utf8 "LexErrorKind(" ++ Text.decimal code ++ utf8 ")"

end LexErrorKind

inductive LexCause where
  | outOfRange
  | unterminated
  | strayCharacter (code : Nat)
  deriving DecidableEq, Repr

structure LexError where
  position : Position
  cause : LexCause
  deriving DecidableEq, Repr

namespace LexError

def kind (error : LexError) : LexErrorKind :=
  match error.cause with
  | .outOfRange => .valueOutOfRange
  | _ => .unexpectedSymbol

def message (error : LexError) : Bytes :=
  match error.cause with
  | .outOfRange => utf8 "the value is out of range, must be in [0..2147483647]"
  | .unterminated => utf8 "unterminated string literal at " ++ error.position.text
  | .strayCharacter code =>
      utf8 "unexpected symbol " ++ Text.quoteCode code ++ utf8 " encountered at " ++
        error.position.text

def issue (error : LexError) : Issue := .located error.position error.message

end LexError

def largestLiteral : Nat := 2147483647

/-- The value of a number's digits, underscores left out, unless it is too large. -/
def numberValue? (text : Bytes) : Option Nat :=
  match Text.readDigits 10 largestLiteral 0 text with
  | .ok value => some value
  | .error _ => none

namespace Piece

def token? (cursor : Cursor) (piece : Piece) : Option Token :=
  let make (kind : TokenKind) (literal : Value) : Token :=
    ⟨kind, piece.text, literal, cursor.position piece.text.length,
      cursor.offsets piece.text.length⟩
  match piece with
  | word text => some (make (.ofWord text) .absent)
  | number text => (numberValue? text).map fun value => make .number (.int (BitVec.ofNat 32 value))
  | quoted content => some (make .string (.text content))
  | operator kind _ => some (make kind .absent)
  | _ => none

/-- The error that a piece gives at a place of the source. A number that is too large is marked
whole, any other error at its first byte. -/
def error? (cursor : Cursor) (piece : Piece) : Option LexError :=
  match piece with
  | number text =>
      if (numberValue? text).isNone then
        some ⟨cursor.position piece.text.length, .outOfRange⟩
      else none
  | openQuote => some ⟨cursor.position 1, .unterminated⟩
  | stray glyph => some ⟨cursor.position 1, .strayCharacter glyph.code⟩
  | _ => none

end Piece

def tokensFrom (cursor : Cursor) : List Piece → List Token
  | [] => []
  | piece :: rest => (piece.token? cursor).toList ++ tokensFrom (cursor.advance piece) rest

def errorsFrom (cursor : Cursor) : List Piece → List LexError
  | [] => []
  | piece :: rest => (piece.error? cursor).toList ++ errorsFrom (cursor.advance piece) rest

structure Lexed where
  /-- The tokens of the source, the last one marking its end. -/
  tokens : List Token
  errors : List LexError
  deriving DecidableEq, Repr

/-- Reads a whole source, collecting every token and every error. -/
def lex (source : Bytes) : Lexed :=
  let parts := pieces source
  let finish := parts.foldl Cursor.advance {}
  { tokens := tokensFrom {} parts ++ [.endOfInput finish.line]
    errors := errorsFrom {} parts }

end ExprCompiler
