import ExprCompiler.Expr.Basic

/-!
The grammar of the source language, stated on its own:

    program        = statement* EOF
    statement      = assignment (";" | before EOF)
    assignment     = IDENTIFIER ":=" assignment | equality
    equality       = comparison (("==" | "!=") comparison)*
    comparison     = implication ((">" | ">=" | "<" | "<=") implication)*
    implication    = or (("imp" | "nimp") implication)?
    or             = xor (("or" | "nor") xor)*
    xor            = and (("xor" | "xnor") and)*
    and            = additive (("and" | "nand") additive)*
    additive       = multiplicative (("+" | "-") multiplicative)*
    multiplicative = unary (("*" | "/" | "%") unary)*
    unary          = ("not" | "-") unary | primary
    primary        = NUMBER | STRING | "true" | "false" | IDENTIFIER | "(" assignment ")"

A value of `Phrase` is a derivation: it says which alternative was taken at every step and which
tokens stand there. Its `tokens` are the words it derives and its `tree` is what they mean. Two
derivations of the same words with the same tree are equal, because a tree fixes how many tokens
each of its parts takes and which symbol it can come from.
-/

namespace ExprCompiler.Grammar

inductive Symbol where
  | assignment | equality | comparison | implication | or | xor | and | additive | multiplicative
  | unary | primary
  deriving DecidableEq, Repr

namespace Symbol

def operand : Symbol → Symbol
  | assignment => equality
  | equality => comparison
  | comparison => implication
  | implication => or
  | or => xor
  | xor => and
  | and => additive
  | additive => multiplicative
  | multiplicative => unary
  | unary => primary
  | primary => primary

/-- The operators that a repetition may use; the symbols without a repetition have none. -/
def repeated : Symbol → List TokenKind
  | equality => [.equalEqual, .bangEqual]
  | comparison => [.greater, .greaterEqual, .less, .lessEqual]
  | or => [.or, .nor]
  | xor => [.xor, .xnor]
  | and => [.and, .nand]
  | additive => [.plus, .minus]
  | multiplicative => [.star, .slash, .percent]
  | _ => []

/-- The node for an operator of a repetition: connectives are logical, the rest is binary. -/
def node : Symbol → Expr → Token → Expr → Expr
  | or, left, op, right => .logical left op right
  | xor, left, op, right => .logical left op right
  | and, left, op, right => .logical left op right
  | _, left, op, right => .binary left op right

end Symbol

/-- Derivations of a symbol. A repetition is built by its last round, so what stands before the
last operator is a phrase of the same symbol. -/
inductive Phrase : Symbol → Type where
  | assign (name op : Token) (value : Phrase .assignment) (isName : name.kind = .identifier)
      (isOperator : op.kind = .colonEqual) : Phrase .assignment
  /-- An operand alone. -/
  | single {symbol : Symbol} (operand : Phrase symbol.operand) (looser : symbol ≠ .primary) :
      Phrase symbol
  /-- One more round of a repetition. -/
  | round {symbol : Symbol} (before : Phrase symbol) (op : Token) (last : Phrase symbol.operand)
      (isOperator : op.kind ∈ symbol.repeated) : Phrase symbol
  | imply (left : Phrase .or) (op : Token) (right : Phrase .implication)
      (isOperator : op.kind ∈ [TokenKind.imp, .nimp]) : Phrase .implication
  | signed (op : Token) (operand : Phrase .unary) (isOperator : op.kind ∈ [TokenKind.not, .minus]) :
      Phrase .unary
  | constant (token : Token)
      (isConstant : token.kind ∈ [TokenKind.number, .string, .trueWord, .falseWord]) :
      Phrase .primary
  | reference (token : Token) (isName : token.kind = .identifier) : Phrase .primary
  | group (opening : Token) (inner : Phrase .assignment) (closing : Token)
      (opens : opening.kind = .leftParen) (closes : closing.kind = .rightParen) : Phrase .primary

/-- The value of a constant: the two words stand for themselves, other tokens carry theirs. -/
def constantValue (token : Token) : Value :=
  if token.kind = .trueWord then .bool true
  else if token.kind = .falseWord then .bool false
  else token.literal

namespace Phrase

def tokens {symbol : Symbol} : Phrase symbol → List Token
  | assign name op value _ _ => name :: op :: value.tokens
  | single operand _ => operand.tokens
  | round before op last _ => before.tokens ++ op :: last.tokens
  | imply left op right _ => left.tokens ++ op :: right.tokens
  | signed op operand _ => op :: operand.tokens
  | constant token _ => [token]
  | reference token _ => [token]
  | group opening inner closing _ _ => opening :: (inner.tokens ++ [closing])

def tree {symbol : Symbol} : Phrase symbol → Expr
  | assign name _ value _ _ => .assign name value.tree
  | single operand _ => operand.tree
  | @round symbol before op last _ => symbol.node before.tree op last.tree
  | imply left op right _ => .logical left.tree op right.tree
  | signed op operand _ => .unary op operand.tree
  | constant token _ => .literal (constantValue token)
  | reference token _ => .reference token
  | group _ inner _ _ _ => .grouping inner.tree

end Phrase

/-- Derivations of a whole program. Only the last statement can do without its semicolon. -/
inductive Statements where
  | done (finish : Token) (isEnd : finish.kind = .eof)
  | last (expr : Phrase .assignment) (finish : Token) (isEnd : finish.kind = .eof)
  | next (expr : Phrase .assignment) (semicolon : Token) (rest : Statements)
      (isSemicolon : semicolon.kind = .semicolon)

namespace Statements

def tokens : Statements → List Token
  | done finish _ => [finish]
  | last expr finish _ => expr.tokens ++ [finish]
  | next expr semicolon rest _ => expr.tokens ++ semicolon :: rest.tokens

def trees : Statements → List Expr
  | done _ _ => []
  | last expr _ _ => [expr.tree]
  | next expr _ rest _ => expr.tree :: rest.trees

end Statements

def tokenCount : Expr → Nat
  | .literal _ => 1
  | .reference _ => 1
  | .grouping inner => tokenCount inner + 2
  | .unary _ right => tokenCount right + 1
  | .binary left _ right => tokenCount left + tokenCount right + 1
  | .logical left _ right => tokenCount left + tokenCount right + 1
  | .assign _ value => tokenCount value + 2
  | .absent => 0

theorem token_count_node (symbol : Symbol) (left right : Expr) (op : Token) :
    tokenCount (symbol.node left op right) = tokenCount left + tokenCount right + 1 := by
  cases symbol <;> rfl

theorem tokens_length {symbol : Symbol} (phrase : Phrase symbol) :
    phrase.tokens.length = tokenCount phrase.tree := by
  induction phrase with
  | assign name op value _ _ valueLength =>
      simp only [Phrase.tokens, Phrase.tree, tokenCount, List.length_cons, valueLength]
  | single operand _ operandLength => exact operandLength
  | round before op last _ beforeLength lastLength =>
      simp only [Phrase.tokens, Phrase.tree, token_count_node, List.length_append,
        List.length_cons, beforeLength, lastLength]
      omega
  | imply left op right _ leftLength rightLength =>
      simp only [Phrase.tokens, Phrase.tree, tokenCount, List.length_append, List.length_cons,
        leftLength, rightLength]
      omega
  | signed op operand _ operandLength =>
      simp only [Phrase.tokens, Phrase.tree, tokenCount, List.length_cons, operandLength]
  | constant token _ => rfl
  | reference token _ => rfl
  | group opening inner closing _ _ innerLength =>
      simp only [Phrase.tokens, Phrase.tree, tokenCount, List.length_cons, List.length_append,
        List.length_nil, innerLength]

theorem phrase_tokens_ne_nil {symbol : Symbol} (phrase : Phrase symbol) : phrase.tokens ≠ [] := by
  induction phrase with
  | single operand _ nonempty => exact nonempty
  | _ => simp [Phrase.tokens]

end ExprCompiler.Grammar
