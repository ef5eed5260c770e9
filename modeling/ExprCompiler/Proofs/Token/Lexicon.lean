import ExprCompiler.Token.Scan

/-!
The lexicon of the source language, stated on its own:

    operators   ( ) { } ; + - * / % == != := > >= < <=
    words       [_a-zA-Z][_a-zA-Z0-9]*     keywords, and identifiers
    numbers     [0-9][_0-9]*               the value of the digits
    texts       "[^"\n]*"                  what stands between the quotes

A source is read from its start. A line break or a run of blanks is passed over. Where a pattern
matches, the longest match is taken, whatever its class. Where none does, one character is reported
and passed over. `Reads` is this rule as a relation; nothing in it says how a match is found.
-/

namespace ExprCompiler.Lexicon

def operators : List (String × TokenKind) :=
  [("(", .leftParen), (")", .rightParen), ("\x7b", .leftBrace), ("\x7d", .rightBrace),
    ("+", .plus), ("-", .minus), ("*", .star), ("/", .slash), ("%", .percent), (";", .semicolon),
    ("==", .equalEqual), ("!=", .bangEqual), (":=", .colonEqual),
    (">", .greater), (">=", .greaterEqual), ("<", .less), ("<=", .lessEqual)]

def letters : Bytes := utf8 "ABCDEFGHIJKLMNOPQRSTUVWXYZ_abcdefghijklmnopqrstuvwxyz"

def digits : Bytes := utf8 "0123456789"

def blanks : Bytes := utf8 "\t\r "

def lineBreak : UInt8 := 10

inductive Pattern where
  | operator | word | number | text
  deriving DecidableEq, Repr

inductive Matches : Pattern → Bytes → Prop where
  | operator {entry : String × TokenKind} (listed : entry ∈ operators) :
      Matches .operator (utf8 entry.1)
  | word {first : UInt8} {rest : Bytes} (starts : first ∈ letters)
      (parts : ∀ byte ∈ rest, byte ∈ letters ∨ byte ∈ digits) : Matches .word (first :: rest)
  | number {first : UInt8} {rest : Bytes} (starts : first ∈ digits)
      (parts : ∀ byte ∈ rest, byte ∈ digits ∨ byte = Text.underscore) :
      Matches .number (first :: rest)
  | text {content : Bytes}
      (parts : ∀ byte ∈ content, byte ≠ Text.doubleQuote ∧ byte ≠ lineBreak) :
      Matches .text (Text.doubleQuote :: (content ++ [Text.doubleQuote]))

/-- The longest match at the front of a source, over all patterns. -/
structure Longest (source : Bytes) (pattern : Pattern) (lexeme : Bytes) : Prop where
  matched : Matches pattern lexeme
  front : lexeme <+: source
  longest : ∀ other longer, Matches other longer → longer <+: source →
    longer.length ≤ lexeme.length

def valueFrom (start : Nat) (number : Bytes) : Nat :=
  (number.filter (· ≠ Text.underscore)).foldl
    (fun value digit => 10 * value + (digit.toNat - 48)) start

def valueOf (number : Bytes) : Nat := valueFrom 0 number

/-- The kind and the value of the token for a match. -/
inductive Means : Pattern → Bytes → TokenKind → Value → Prop where
  | operator {entry : String × TokenKind} (listed : entry ∈ operators) :
      Means .operator (utf8 entry.1) entry.2 .absent
  | keyword {entry : String × TokenKind} (listed : entry ∈ TokenKind.keywords) :
      Means .word (utf8 entry.1) entry.2 .absent
  | identifier {word : Bytes} (other : ∀ entry ∈ TokenKind.keywords, utf8 entry.1 ≠ word) :
      Means .word word .identifier .absent
  | number {number : Bytes} (small : valueOf number ≤ 2147483647) :
      Means .number number .number (.int (BitVec.ofNat 32 (valueOf number)))
  | text {content : Bytes} :
      Means .text (Text.doubleQuote :: (content ++ [Text.doubleQuote])) .string (.text content)

/-- The character at the front of a source, with its bytes and its code. A byte that starts no
encoding is a character of its own. -/
inductive Character (source : Bytes) : Bytes → Nat → Prop where
  | encoded {char : Char} (front : String.utf8EncodeChar char <+: source) :
      Character source (String.utf8EncodeChar char) char.toNat
  | invalid {byte : UInt8} (front : [byte] <+: source)
      (none : ∀ char : Char, ¬String.utf8EncodeChar char <+: source) :
      Character source [byte] 0xfffd

/-- What is passed over without a token, in front of the rest of a source. -/
inductive Passed : Bytes → Bytes → Prop where
  | lineBreak {rest : Bytes} : Passed [lineBreak] rest
  | blanks {run rest : Bytes} (some : run ≠ []) (all : ∀ byte ∈ run, byte ∈ blanks)
      (whole : ∀ byte ∈ rest.head?, byte ∉ blanks) : Passed run rest

def place (before : Bytes) (width : Nat) : Position :=
  let column : Int := (before.reverse.takeWhile (· ≠ lineBreak)).length
  ⟨before.count lineBreak, ⟨column, column + width - 1⟩⟩

def offsets (before : Bytes) (width : Nat) : Span :=
  ⟨before.length, (before.length : Int) + width - 1⟩

/-- A quote that is not closed is told apart from other characters that start no token. -/
def unexpected (character : Bytes) (code : Nat) : LexCause :=
  if character = [Text.doubleQuote] then .unterminated else .strayCharacter code

/-- One round: what is taken off the front of a source behind some bytes, and the token or the error
it gives. -/
inductive Round (before : Bytes) : Bytes → Bytes → Option Token → Option LexError → Prop where
  | passed {run rest : Bytes} (passed : Passed run rest) : Round before run rest none none
  | token {pattern : Pattern} {lexeme rest : Bytes} {kind : TokenKind} {literal : Value}
      (longest : Longest (lexeme ++ rest) pattern lexeme)
      (means : Means pattern lexeme kind literal) :
      Round before lexeme rest
        (some ⟨kind, lexeme, literal, place before lexeme.length, offsets before lexeme.length⟩)
        none
  | outOfRange {lexeme rest : Bytes} (longest : Longest (lexeme ++ rest) .number lexeme)
      (large : 2147483647 < valueOf lexeme) :
      Round before lexeme rest none (some ⟨place before lexeme.length, .outOfRange⟩)
  | unexpected {character rest : Bytes} {code : Nat}
      (front : Character (character ++ rest) character code)
      (visible : ∀ run left, run ++ left = character ++ rest → ¬Passed run left)
      (unmatched : ∀ pattern lexeme, Matches pattern lexeme → ¬lexeme <+: character ++ rest) :
      Round before character rest none (some ⟨place before 1, unexpected character code⟩)

/-- Round after round to the end of a source, which gets a mark of its own. -/
inductive Reads : Bytes → Bytes → List Token → List LexError → Prop where
  | done {before : Bytes} :
      Reads before [] [.endOfInput (before.count lineBreak)] []
  | round {before taken rest : Bytes} {token : Option Token} {error : Option LexError}
      {tokens : List Token} {errors : List LexError} (first : Round before taken rest token error)
      (later : Reads (before ++ taken) rest tokens errors) :
      Reads before (taken ++ rest) (token.toList ++ tokens) (error.toList ++ errors)

end ExprCompiler.Lexicon
