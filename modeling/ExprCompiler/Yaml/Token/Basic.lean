import ExprCompiler.Text.Utf8
import ExprCompiler.Yaml.Scalar

/-!
The tokens of YAML: marks, tags, comments, the headers of block scalars, and scalars. Lines and
columns count from one; where a token stands decides what it belongs to.
-/

namespace ExprCompiler.Yaml

inductive Mark where
  | mapStart
  | mapEnd
  | listStart
  | listEnd
  | comma
  | colon
  | question
  | hyphen
  | merge
  | documentStart
  | documentEnd
  | directive
  | anchor
  | reference
  deriving DecidableEq, Repr

inductive Style where
  | plain
  | quoted
  | block
  deriving DecidableEq, Repr

inductive Lexeme where
  | mark (kind : Mark)
  | tag (name : Bytes)
  | comment
  /-- The first line of a block scalar. -/
  | header
  | scalar (style : Style) (content : Bytes) (value : Scalar)
  deriving DecidableEq, Repr

structure Place where
  line : Nat := 1
  column : Nat := 1
  deriving DecidableEq, Repr

structure Token where
  lexeme : Lexeme
  place : Place
  /-- The characters since the token before. -/
  spelling : List Char := []
  deriving DecidableEq, Repr

namespace Token

def isMark (kind : Mark) (token : Token) : Bool := token.lexeme == .mark kind

def isTag (token : Token) : Bool :=
  match token.lexeme with
  | .tag _ => true
  | _ => false

def isScalar (token : Token) : Bool :=
  match token.lexeme with
  | .scalar .. => true
  | _ => false

def isQuoted (token : Token) : Bool :=
  match token.lexeme with
  | .scalar .quoted _ _ => true
  | _ => false

def content? (token : Token) : Option Bytes :=
  match token.lexeme with
  | .scalar _ content _ => some content
  | _ => none

end Token

def isBreak (char : Char) : Bool := char == '\n' || char == '\r'

def isGap (char : Char) : Bool := char == ' ' || char == '\t'

def encode (chars : List Char) : Bytes := chars.flatMap fun char => Text.encodeScalar char.toNat

def scalarTags : List String :=
  ["!!int", "!!float", "!!str", "!!binary", "!!timestamp", "!!bool", "!!null"]

def knownTags : List String :=
  scalarTags ++ ["!!map", "!!set", "!!seq", "!!omap", "!!merge"]

def isOneOfTags (names : List String) (tag : Bytes) : Bool := names.any fun name => utf8 name == tag

/-- Whether a line of three hyphens or dots stands in front. -/
def startsDocumentMark (chars : List Char) : Bool :=
  let word := ((chars.take 4).reverse.dropWhile fun char => isGap char || isBreak char).reverse
  word == ['-', '-', '-'] || word == ['.', '.', '.']

end ExprCompiler.Yaml
