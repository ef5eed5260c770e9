import ExprCompiler.Position
import ExprCompiler.Value

/-!
Tokens of the source language: their kinds, with the names and the numbers that identify a kind,
and their one-line description.
-/

namespace ExprCompiler

inductive TokenKind where
  | eof
  | leftParen | rightParen | leftBrace | rightBrace
  | semicolon
  | plus | minus | star | slash | percent
  | colonEqual | equalEqual | bangEqual
  | greater | greaterEqual | less | lessEqual
  | identifier | number | string
  | not | and | nand | xor | xnor | or | nor | imp | nimp
  | trueWord | falseWord
  | print | println | ifWord | elseWord | whileWord | repeatWord
  /-- A number that identifies no kind. -/
  | unknown (code : Int)
  deriving DecidableEq, Repr

namespace TokenKind

/-- Every kind with its name, in the order of their numbers. -/
def catalogue : List (TokenKind × String) :=
  [(.eof, "EOF"), (.leftParen, "LEFT_PAREN"), (.rightParen, "RIGHT_PAREN"),
    (.leftBrace, "LEFT_BRACE"), (.rightBrace, "RIGHT_BRACE"), (.semicolon, "SEMICOLON"),
    (.plus, "PLUS"), (.minus, "MINUS"), (.star, "STAR"), (.slash, "SLASH"),
    (.percent, "PERCENT"), (.colonEqual, "COLON_EQUAL"), (.equalEqual, "EQUAL_EQUAL"),
    (.bangEqual, "BANG_EQUAL"), (.greater, "GREATER"), (.greaterEqual, "GREATER_EQUAL"),
    (.less, "LESS"), (.lessEqual, "LESS_EQUAL"), (.identifier, "IDENTIFIER"),
    (.number, "NUMBER"), (.string, "STRING"), (.not, "NOT"), (.and, "AND"), (.nand, "NAND"),
    (.xor, "XOR"), (.xnor, "XNOR"), (.or, "OR"), (.nor, "NOR"), (.imp, "IMP"), (.nimp, "NIMP"),
    (.trueWord, "TRUE"), (.falseWord, "FALSE"), (.print, "PRINT"), (.println, "PRINTLN"),
    (.ifWord, "IF"), (.elseWord, "ELSE"), (.whileWord, "WHILE"), (.repeatWord, "REPEAT")]

def ofCode (code : Int) : TokenKind :=
  if code < 0 then .unknown code
  else
    match catalogue[code.toNat]? with
    | some entry => entry.1
    | none => .unknown code

def ofName? (name : Bytes) : Option TokenKind :=
  (catalogue.find? fun entry => utf8 entry.2 == name).map Prod.fst

def name : TokenKind → Bytes
  | .unknown code => utf8 "TokenType(" ++ Text.decimal code ++ utf8 ")"
  | kind => ((catalogue.find? fun entry => entry.1 == kind).map fun entry => utf8 entry.2).getD []

def keywords : List (String × TokenKind) :=
  [("true", .trueWord), ("false", .falseWord), ("print", .print), ("println", .println),
    ("and", .and), ("nand", .nand), ("xor", .xor), ("xnor", .xnor), ("or", .or), ("nor", .nor),
    ("imp", .imp), ("nimp", .nimp), ("not", .not), ("if", .ifWord), ("else", .elseWord),
    ("while", .whileWord), ("repeat", .repeatWord)]

def ofWord (word : Bytes) : TokenKind :=
  ((keywords.find? fun entry => utf8 entry.1 == word).map Prod.snd).getD .identifier

end TokenKind

structure Token where
  kind : TokenKind
  /-- The source text that was matched. -/
  lexeme : Bytes
  literal : Value
  position : Position
  /-- The bytes of the source that the token takes. -/
  offsets : Span
  deriving DecidableEq, Repr

namespace Token

/-- The token that marks the end of a source on its last line. -/
def endOfInput (line : Int) : Token := ⟨.eof, [], .absent, ⟨line, .empty⟩, .empty⟩

def text (token : Token) : Bytes :=
  let columns :=
    Text.padRight 13 token.kind.name ++ utf8 " " ++ Text.padRight 14 (Text.quote token.lexeme)
  match token.literal with
  | .absent => columns ++ utf8 "  " ++ token.position.text
  | value => columns ++ utf8 " " ++ value.plain ++ utf8 "  " ++ token.position.text

end Token
end ExprCompiler
