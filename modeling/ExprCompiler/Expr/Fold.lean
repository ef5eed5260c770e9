import ExprCompiler.Expr.Basic

/-!
Constant folding. Arithmetic on word literals is carried out from the leaves up, with the wrapping
arithmetic of the machine. Divisions that would fault at run time stay as they are, and boolean
connectives are never collapsed.
-/

namespace ExprCompiler

/-- The result of an arithmetic operator on two words, unless it is none or would fault. -/
def foldWords? (kind : TokenKind) (left right : Word) : Option Word :=
  match kind with
  | .plus => some (left + right)
  | .minus => some (left - right)
  | .star => some (left * right)
  | .slash => if Word.divisionFaults left right then none else some (left.sdiv right)
  | .percent => if Word.divisionFaults left right then none else some (left.srem right)
  | _ => none

namespace Expr

def foldGrouping : Expr → Expr
  | literal value => literal value
  | inner => grouping inner

def foldUnary (op : Token) : Expr → Expr
  | literal (.int word) =>
      if op.kind = .minus then literal (.int (-word)) else unary op (literal (.int word))
  | right => unary op right

def foldBinary (left : Expr) (op : Token) (right : Expr) : Expr :=
  match left, right with
  | literal (.int first), literal (.int second) =>
      match foldWords? op.kind first second with
      | some word => literal (.int word)
      | none => binary left op right
  | _, _ => binary left op right

def fold : Expr → Expr
  | literal value => literal value
  | reference name => reference name
  | grouping inner => foldGrouping inner.fold
  | unary op right => foldUnary op right.fold
  | binary left op right => foldBinary left.fold op right.fold
  | logical left op right => logical left.fold op right.fold
  | assign name value => assign name value.fold
  | absent => absent

end Expr
end ExprCompiler
