import ExprCompiler.Expr.Basic
import ExprCompiler.Issue

/-!
From tokens to trees. The binary operators form tiers, from the loosest to the tightest:

    assignment     :=              groups to the right, its left side is a variable
    equality       == !=           groups to the left
    comparison     > >= < <=       groups to the left
    implication    imp nimp        groups to the right
    disjunction    or nor          groups to the left
    exclusion      xor xnor        groups to the left
    conjunction    and nand        groups to the left
    additive       + -             groups to the left
    multiplicative * / %           groups to the left

Below them stand the unary operators `not` and `-`, and then literals, variables and parentheses.
A statement is an expression with a semicolon, which may be left out at the end of the input. A
statement that is no expression is reported, and reading goes on at the next statement.
-/

namespace ExprCompiler

inductive ParseCause where
  | invalidAssignmentTarget
  | closingParenExpected
  | semicolonExpected
  | unexpectedExpression
  | expressionExpected
  | trailingInput
  deriving DecidableEq, Repr

def ParseCause.message : ParseCause → Bytes
  | .invalidAssignmentTarget => utf8 "invalid assignment target"
  | .closingParenExpected => utf8 "')' was expected"
  | .semicolonExpected => utf8 "';' was expected"
  | .unexpectedExpression => utf8 "unexpected expression"
  | .expressionExpected => utf8 "an expression was expected"
  | .trailingInput => utf8 "only a single expression can be compiled"

structure ParseError where
  token : Token
  cause : ParseCause
  deriving DecidableEq, Repr

def ParseError.position (error : ParseError) : Position := error.token.position

def ParseError.issue (error : ParseError) : Issue := .located error.position error.cause.message

inductive Tier where
  | assignment | equality | comparison | implication | disjunction | exclusion | conjunction
  | additive | multiplicative
  deriving DecidableEq, Repr

namespace Tier

def all : List Tier :=
  [.assignment, .equality, .comparison, .implication, .disjunction, .exclusion, .conjunction,
    .additive, .multiplicative]

def operators : Tier → List TokenKind
  | assignment => [.colonEqual]
  | equality => [.equalEqual, .bangEqual]
  | comparison => [.greater, .greaterEqual, .less, .lessEqual]
  | implication => [.imp, .nimp]
  | disjunction => [.or, .nor]
  | exclusion => [.xor, .xnor]
  | conjunction => [.and, .nand]
  | additive => [.plus, .minus]
  | multiplicative => [.star, .slash, .percent]

def groupsRight : Tier → Bool
  | assignment => true
  | implication => true
  | _ => false

def takesLeft : Tier → Expr → Bool
  | assignment, left => left.isReference
  | _, _ => true

def node : Tier → Expr → Token → Expr → Expr
  | assignment, .reference name, _, right => .assign name right
  | implication, left, op, right => .logical left op right
  | disjunction, left, op, right => .logical left op right
  | exclusion, left, op, right => .logical left op right
  | conjunction, left, op, right => .logical left op right
  | _, left, op, right => .binary left op right

end Tier

/-- The result of reading an expression off the front of a token list. `bound` limits the tokens
that are left: below it after success, at most it after a failure. -/
inductive ParseStep (bound : Nat) where
  | parsed (expr : Expr) (rest : List Token) (shorter : rest.length < bound)
  | failed (error : ParseError) (rest : List Token) (bounded : rest.length ≤ bound)

def ParseStep.widen {bound larger : Nat} (room : bound ≤ larger) :
    ParseStep bound → ParseStep larger
  | parsed expr rest shorter => parsed expr rest (Nat.lt_of_lt_of_le shorter room)
  | failed error rest bounded => failed error rest (Nat.le_trans bounded room)

mutual

/-- Reads an expression of the given tiers; `finish` marks the end of the input. -/
def parseTiers (finish : Token) (tiers : List Tier) (tokens : List Token) :
    ParseStep tokens.length :=
  match tiers with
  | [] => parseOperand finish tokens
  | tier :: tighter =>
      match parseTiers finish tighter tokens with
      | .failed error rest bounded => .failed error rest bounded
      | .parsed left rest shorter => (parseOperators finish tier tighter left rest).widen shorter
termination_by 64 * tokens.length + 2 * tiers.length + 1

/-- Continues after a left operand of a tier as long as the tier's operators follow. -/
def parseOperators (finish : Token) (tier : Tier) (tighter : List Tier) (left : Expr)
    (tokens : List Token) : ParseStep (tokens.length + 1) :=
  match tokens with
  | [] => .parsed left [] (by simp)
  | op :: after =>
      if tier.operators.contains op.kind then
        if !tier.takesLeft left then
          .failed ⟨op, .invalidAssignmentTarget⟩ after
            (by simp only [List.length_cons]; omega)
        else if tier.groupsRight then
          match parseTiers finish (tier :: tighter) after with
          | .failed error rest bounded =>
              .failed error rest (by simp only [List.length_cons]; omega)
          | .parsed right rest shorter =>
              .parsed (tier.node left op right) rest (by simp only [List.length_cons]; omega)
        else
          match parseTiers finish tighter after with
          | .failed error rest bounded =>
              .failed error rest (by simp only [List.length_cons]; omega)
          | .parsed right rest shorter =>
              (parseOperators finish tier tighter (tier.node left op right) rest).widen
                (by simp only [List.length_cons]; omega)
      else .parsed left (op :: after) (by simp only [List.length_cons]; omega)
termination_by 64 * tokens.length + 2 * tighter.length + 4

def parseOperand (finish : Token) (tokens : List Token) : ParseStep tokens.length :=
  match tokens with
  | [] => .failed ⟨finish, .unexpectedExpression⟩ [] (by simp)
  | token :: after =>
      match token.kind with
      | .not | .minus =>
          match parseOperand finish after with
          | .failed error rest bounded =>
              .failed error rest (by simp only [List.length_cons]; omega)
          | .parsed right rest shorter =>
              .parsed (.unary token right) rest (by simp only [List.length_cons]; omega)
      | .trueWord => .parsed (.literal (.bool true)) after (by simp)
      | .falseWord => .parsed (.literal (.bool false)) after (by simp)
      | .number | .string => .parsed (.literal token.literal) after (by simp)
      | .identifier => .parsed (.reference token) after (by simp)
      | .leftParen =>
          match parseTiers finish Tier.all after with
          | .failed error rest bounded =>
              .failed error rest (by simp only [List.length_cons]; omega)
          | .parsed inner [] shorter =>
              .failed ⟨finish, .closingParenExpected⟩ [] (by simp)
          | .parsed inner (close :: rest) shorter =>
              if close.kind = .rightParen then
                .parsed (.grouping inner) rest (by simp only [List.length_cons] at *; omega)
              else
                .failed ⟨close, .closingParenExpected⟩ (close :: rest)
                  (by simp only [List.length_cons] at *; omega)
      | _ => .failed ⟨token, .unexpectedExpression⟩ (token :: after) (by simp)
termination_by 64 * tokens.length
decreasing_by all_goals simp only [List.length_cons, Tier.all, List.length_nil]; omega

end

def parseStatement (finish : Token) (tokens : List Token) : ParseStep tokens.length :=
  match parseTiers finish Tier.all tokens with
  | .failed error rest bounded => .failed error rest bounded
  | .parsed expr [] shorter => .parsed expr [] shorter
  | .parsed expr (token :: rest) shorter =>
      if token.kind = .semicolon then
        .parsed expr rest (by simp only [List.length_cons] at shorter; omega)
      else .failed ⟨token, .semicolonExpected⟩ (token :: rest) (Nat.le_of_lt shorter)

def startsStatement (kind : TokenKind) : Bool :=
  [.ifWord, .whileWord, .repeatWord, .print, .println, .leftBrace].contains kind

/-- The tokens from the next statement on, after the token `previous` was dropped. -/
def skipPast (previous : Token) : List Token → List Token
  | [] => []
  | token :: rest =>
      if previous.kind = .semicolon || startsStatement token.kind then token :: rest
      else skipPast token rest

/-- Drops at least one token, and then all up to the next statement. -/
def synchronize : List Token → List Token
  | [] => []
  | token :: rest => skipPast token rest

theorem skipPast_length_le (previous : Token) (tokens : List Token) :
    (skipPast previous tokens).length ≤ tokens.length := by
  induction tokens generalizing previous with
  | nil => simp [skipPast]
  | cons token rest induction =>
      simp only [skipPast]
      split
      · simp
      · exact Nat.le_succ_of_le (induction token)

theorem synchronize_length_le (tokens : List Token) :
    (synchronize tokens).length ≤ tokens.length - 1 := by
  cases tokens with
  | nil => simp [synchronize]
  | cons token rest => simpa [synchronize] using skipPast_length_le token rest

structure Parsed where
  statements : List Expr
  errors : List ParseError
  deriving DecidableEq, Repr

def parseStatements (finish : Token) (tokens : List Token) : Parsed :=
  match tokens with
  | [] => ⟨[], []⟩
  | token :: after =>
      match parseStatement finish (token :: after) with
      | .parsed expr rest _ =>
          let later := parseStatements finish rest
          ⟨expr :: later.statements, later.errors⟩
      | .failed error rest _ =>
          let later := parseStatements finish (synchronize rest)
          ⟨later.statements, error :: later.errors⟩
termination_by tokens.length
decreasing_by
  all_goals have := synchronize_length_le rest
  all_goals simp only [List.length_cons] at *
  all_goals omega

/-- The tokens before the first end mark, and that mark; a list without one ends on line zero. -/
def splitAtEnd : List Token → List Token × Token
  | [] => ([], .endOfInput 0)
  | token :: rest =>
      if token.kind = .eof then ([], token)
      else
        let (before, finish) := splitAtEnd rest
        (token :: before, finish)

/-- Reads a whole program, collecting every statement and every independent error. -/
def parse (tokens : List Token) : Parsed :=
  let (before, finish) := splitAtEnd tokens
  parseStatements finish before

/-- Reads one expression and leaves the tokens after it alone. -/
def parseExpression (tokens : List Token) : Except ParseError Expr :=
  let (before, finish) := splitAtEnd tokens
  match parseTiers finish Tier.all before with
  | .parsed expr _ _ => .ok expr
  | .failed error _ _ => .error error

end ExprCompiler
