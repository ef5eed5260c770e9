import ExprCompiler.Expr.Basic
import ExprCompiler.Issue
import ExprCompiler.Table

/-!
Direct evaluation of trees. Words wrap, the boolean connectives leave their right side alone when
the left one settles the result, and an assignment binds its name even if a later part fails.
-/

namespace ExprCompiler

abbrev Environment := Table Value

inductive EvalCause where
  | undefinedVariable (name : Bytes)
  | noEnvironment
  | divisionByZero
  | integerExpected
  | booleanExpected
  | unsupportedUnary
  | unsupportedBinary
  | unsupportedLogical
  deriving DecidableEq, Repr

def EvalCause.message : EvalCause → Bytes
  | .undefinedVariable name => utf8 "undefined variable " ++ Text.quote name
  | .noEnvironment => utf8 "no environment to assign to"
  | .divisionByZero => utf8 "division by zero"
  | .integerExpected => utf8 "integer was expected"
  | .booleanExpected => utf8 "boolean was expected"
  | .unsupportedUnary => utf8 "unsupported unary operator"
  | .unsupportedBinary => utf8 "unsupported binary operator"
  | .unsupportedLogical => utf8 "unsupported logical operator"

inductive EvalError where
  /-- A failure at an operator or a name. -/
  | located (token : Token) (cause : EvalCause)
  /-- A missing node was reached. -/
  | unsupportedExpression
  deriving DecidableEq, Repr

def EvalError.issue : EvalError → Issue
  | .located token cause => .located token.position cause.message
  | .unsupportedExpression => .plain (utf8 "unsupported expression: <nil>")

def Value.asWord (op : Token) : Value → Except EvalError Word
  | .int word => .ok word
  | _ => .error (.located op .integerExpected)

def Value.asBool (op : Token) : Value → Except EvalError Bool
  | .bool flag => .ok flag
  | _ => .error (.located op .booleanExpected)

def applyUnary (op : Token) (value : Value) : Except EvalError Value :=
  match op.kind with
  | .minus => (value.asWord op).map fun word => .int (-word)
  | .not => (value.asBool op).map fun flag => .bool (!flag)
  | _ => .error (.located op .unsupportedUnary)

def applyWords (op : Token) (left right : Word) : Except EvalError Value :=
  match op.kind with
  | .plus => .ok (.int (left + right))
  | .minus => .ok (.int (left - right))
  | .star => .ok (.int (left * right))
  | .slash =>
      if right = 0 then .error (.located op .divisionByZero) else .ok (.int (left.sdiv right))
  | .percent =>
      if right = 0 then .error (.located op .divisionByZero) else .ok (.int (left.srem right))
  | .greater => .ok (.bool (right.slt left))
  | .greaterEqual => .ok (.bool (right.sle left))
  | .less => .ok (.bool (left.slt right))
  | .lessEqual => .ok (.bool (left.sle right))
  | _ => .error (.located op .unsupportedBinary)

def Value.isText : Value → Bool
  | .text _ => true
  | _ => false

/-- A binary operator on two values: equality compares any values, a sum with a text joins the
printed forms, everything else needs words. -/
def applyBinary (op : Token) (left right : Value) : Except EvalError Value :=
  match op.kind with
  | .equalEqual => .ok (.bool (left == right))
  | .bangEqual => .ok (.bool (left != right))
  | kind =>
      if kind = .plus && (left.isText || right.isText) then
        .ok (.text (left.plain ++ right.plain))
      else do
        let first ← left.asWord op
        let second ← right.asWord op
        applyWords op first second

inductive Connective where
  | conjunction | disjunction | implication | exclusion
  deriving DecidableEq, Repr

namespace Connective

/-- The connective of an operator, and whether its result is negated. -/
def ofKind? : TokenKind → Option (Connective × Bool)
  | .and => some (.conjunction, false)
  | .nand => some (.conjunction, true)
  | .or => some (.disjunction, false)
  | .nor => some (.disjunction, true)
  | .imp => some (.implication, false)
  | .nimp => some (.implication, true)
  | .xor => some (.exclusion, false)
  | .xnor => some (.exclusion, true)
  | _ => none

/-- The result that the left side settles alone. -/
def settled? : Connective → Bool → Option Bool
  | conjunction, false => some false
  | disjunction, true => some true
  | implication, false => some true
  | _, _ => none

def combine : Connective → Bool → Bool → Bool
  | exclusion, left, right => left != right
  | _, _, right => right

end Connective

/-- Where names are bound; `none` when there is no environment at all. -/
abbrev Scope := Option Environment

def Scope.find? (scope : Scope) (name : Bytes) : Option Value :=
  scope.bind fun environment => Table.find? name environment

namespace Expr

/-- The value or the failure of a tree, with the bindings after it. -/
def evaluate : Expr → Scope → Except EvalError Value × Scope
  | literal value, scope => (.ok value, scope)
  | reference name, scope =>
      match scope.find? name.lexeme with
      | some value => (.ok value, scope)
      | none => (.error (.located name (.undefinedVariable name.lexeme)), scope)
  | grouping inner, scope => inner.evaluate scope
  | unary op right, scope =>
      match right.evaluate scope with
      | (.error problem, after) => (.error problem, after)
      | (.ok value, after) => (applyUnary op value, after)
  | binary left op right, scope =>
      match left.evaluate scope with
      | (.error problem, after) => (.error problem, after)
      | (.ok first, between) =>
          match right.evaluate between with
          | (.error problem, after) => (.error problem, after)
          | (.ok second, after) => (applyBinary op first second, after)
  | logical left op right, scope =>
      match left.evaluate scope with
      | (.error problem, after) => (.error problem, after)
      | (.ok first, between) =>
          match first.asBool op, Connective.ofKind? op.kind with
          | .error problem, _ => (.error problem, between)
          | .ok _, none => (.error (.located op .unsupportedLogical), between)
          | .ok flag, some (connective, negated) =>
              match connective.settled? flag with
              | some result => (.ok (.bool (result != negated)), between)
              | none =>
                  match right.evaluate between with
                  | (.error problem, after) => (.error problem, after)
                  | (.ok second, after) =>
                      ((second.asBool op).map fun other =>
                        .bool (connective.combine flag other != negated), after)
  | assign name value, scope =>
      match value.evaluate scope with
      | (.error problem, after) => (.error problem, after)
      | (.ok result, some environment) =>
          (.ok result, some (environment.set name.lexeme result))
      | (.ok _, none) => (.error (.located name .noEnvironment), none)
  | absent, scope => (.error .unsupportedExpression, scope)

end Expr
end ExprCompiler
