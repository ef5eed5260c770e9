import ExprCompiler.Token.Basic

/-!
Expression trees, their one-line and indented texts, and the names that occur in them.
-/

namespace ExprCompiler

inductive Expr where
  | literal (value : Value)
  /-- A variable that is read. -/
  | reference (name : Token)
  /-- A parenthesised expression. -/
  | grouping (inner : Expr)
  | unary (op : Token) (right : Expr)
  /-- Arithmetic, comparison or equality. -/
  | binary (left : Expr) (op : Token) (right : Expr)
  /-- A boolean connective. -/
  | logical (left : Expr) (op : Token) (right : Expr)
  | assign (name : Token) (value : Expr)
  /-- A missing node of a hand-made tree. -/
  | absent
  deriving DecidableEq, Repr

namespace Expr

def isReference : Expr → Bool
  | reference _ => true
  | _ => false

def listText (parts : List Bytes) : Bytes := utf8 "(" ++ Text.join (utf8 " ") parts ++ utf8 ")"

/-- The tree on one line, operators first. -/
def text : Expr → Bytes
  | literal value => value.literal
  | reference name => name.lexeme
  | grouping inner => listText [utf8 "group", inner.text]
  | unary op right => listText [op.lexeme, right.text]
  | binary left op right => listText [op.lexeme, left.text, right.text]
  | logical left op right => listText [op.lexeme, left.text, right.text]
  | assign name value => listText [utf8 ":=", name.lexeme, value.text]
  | absent => utf8 "%!s(<nil>)"

def statementText (expr : Expr) : Bytes := utf8 "ExprStmt(" ++ expr.text ++ utf8 ")"

def outlineRow (depth : Nat) (content : Bytes) : Bytes :=
  List.replicate (2 * depth) 0x20 ++ content ++ [10]

/-- The tree with one node on a line, children indented below their parent. -/
def outline (depth : Nat) : Expr → Bytes
  | literal value => outlineRow depth (utf8 "Literal " ++ value.literal)
  | reference name => outlineRow depth (utf8 "Var " ++ name.lexeme)
  | grouping inner => outlineRow depth (utf8 "Grouping") ++ inner.outline (depth + 1)
  | unary op right =>
      outlineRow depth (utf8 "Unary " ++ op.lexeme) ++ right.outline (depth + 1)
  | binary left op right =>
      outlineRow depth (utf8 "Binary " ++ op.lexeme) ++ left.outline (depth + 1) ++
        right.outline (depth + 1)
  | logical left op right =>
      outlineRow depth (utf8 "Logical " ++ op.lexeme) ++ left.outline (depth + 1) ++
        right.outline (depth + 1)
  | assign name value =>
      outlineRow depth (utf8 "Assignment " ++ name.lexeme) ++ value.outline (depth + 1)
  | absent => outlineRow depth (utf8 "<nil>")

/-- Every occurrence of a name that is read or assigned, from left to right. -/
def nameList : Expr → List Bytes
  | literal _ => []
  | reference name => [name.lexeme]
  | grouping inner => inner.nameList
  | unary _ right => right.nameList
  | binary left _ right => left.nameList ++ right.nameList
  | logical left _ right => left.nameList ++ right.nameList
  | assign name value => name.lexeme :: value.nameList
  | absent => []

def names (expr : Expr) : List Bytes := Text.sortedSet expr.nameList

end Expr

def programNames (statements : List Expr) : List Bytes :=
  Text.sortedSet (statements.flatMap Expr.nameList)

end ExprCompiler
