import ExprCompiler.Expr.Evaluate
import ExprCompiler.Expr.Fold

/-!
Constant folding keeps the meaning of a tree. Each of the three rewrites at a node is compared with
the node it replaces, whatever its operands are; the whole pass then follows by induction on the
tree. Nothing is assumed of the tree: its operators may be unknown, its nodes may be missing, and
there may be no environment.
-/

namespace ExprCompiler.Expr

/-- A division that is folded has a divisor other than zero, so evaluation carries it out too. -/
theorem divisor_not_zero_of_no_fault {dividend divisor : Word}
    (quiet : ¬Word.divisionFaults dividend divisor = true) : divisor ≠ 0 := by
  intro zero
  subst zero
  simp [Word.divisionFaults] at quiet

theorem apply_binary_words (op : Token) (left right : Word)
    (noEquality : op.kind ≠ .equalEqual) (noInequality : op.kind ≠ .bangEqual) :
    applyBinary op (.int left) (.int right) = applyWords op left right := by
  unfold applyBinary
  split
  · contradiction
  · contradiction
  · simp [Value.isText, Value.asWord, bind, Except.bind]

/-- Whatever the folder computes of two words is what evaluation computes of them. -/
theorem apply_binary_of_fold_words (op : Token) (left right word : Word)
    (folded : foldWords? op.kind left right = some word) :
    applyBinary op (.int left) (.int right) = .ok (.int word) := by
  have noEquality : op.kind ≠ .equalEqual := by
    intro kind
    simp [kind, foldWords?] at folded
  have noInequality : op.kind ≠ .bangEqual := by
    intro kind
    simp [kind, foldWords?] at folded
  rw [apply_binary_words op left right noEquality noInequality]
  unfold foldWords? at folded
  unfold applyWords
  split at folded
  case h_6 => simp at folded
  case h_4 kind | h_5 kind =>
    split at folded
    · simp at folded
    · rename_i quiet
      rw [kind]
      dsimp only
      rw [if_neg (divisor_not_zero_of_no_fault quiet), Option.some.inj folded]
  all_goals
    rename_i kind
    rw [kind]
    dsimp only
    rw [Option.some.inj folded]

theorem fold_grouping_evaluate (inner : Expr) (scope : Scope) :
    inner.foldGrouping.evaluate scope = inner.evaluate scope := by
  cases inner <;> rfl

theorem fold_unary_evaluate (op : Token) (right : Expr) (scope : Scope) :
    (foldUnary op right).evaluate scope = (unary op right).evaluate scope := by
  unfold foldUnary
  split
  · rename_i word
    split
    · rename_i minus
      simp [evaluate, applyUnary, minus, Value.asWord, Except.map]
    · rfl
  · rfl

theorem fold_binary_evaluate (left : Expr) (op : Token) (right : Expr) (scope : Scope) :
    (foldBinary left op right).evaluate scope = (binary left op right).evaluate scope := by
  unfold foldBinary
  split
  · rename_i first second
    split
    · rename_i word folded
      simp only [evaluate]
      rw [apply_binary_of_fold_words op first second word folded]
    · rfl
  · rfl

/-- Folding changes neither the value nor the failure of a tree, nor the bindings after it. -/
theorem evaluate_fold (expr : Expr) (scope : Scope) :
    expr.fold.evaluate scope = expr.evaluate scope := by
  induction expr generalizing scope with
  | literal value => rfl
  | reference name => rfl
  | grouping inner innerSame =>
      rw [fold, fold_grouping_evaluate, innerSame]
      rfl
  | unary op right rightSame =>
      rw [fold, fold_unary_evaluate]
      simp only [evaluate, rightSame]
  | binary left op right leftSame rightSame =>
      rw [fold, fold_binary_evaluate]
      simp only [evaluate, leftSame, rightSame]
  | logical left op right leftSame rightSame =>
      simp only [fold, evaluate, leftSame, rightSame]
  | assign name value valueSame => simp only [fold, evaluate, valueSame]
  | absent => rfl

theorem fold_grouping_name_list (inner : Expr) :
    inner.foldGrouping.nameList = inner.nameList := by
  cases inner <;> rfl

theorem fold_unary_name_list (op : Token) (right : Expr) :
    (foldUnary op right).nameList = right.nameList := by
  unfold foldUnary
  split
  · split <;> rfl
  · rfl

theorem fold_binary_name_list (left : Expr) (op : Token) (right : Expr) :
    (foldBinary left op right).nameList = left.nameList ++ right.nameList := by
  unfold foldBinary
  split
  · split <;> rfl
  · rfl

/-- Folding drops no name, since only literals collapse. -/
theorem name_list_fold (expr : Expr) : expr.fold.nameList = expr.nameList := by
  induction expr with
  | literal value => rfl
  | reference name => rfl
  | grouping inner innerSame => rw [fold, fold_grouping_name_list, innerSame, nameList]
  | unary op right rightSame => rw [fold, fold_unary_name_list, rightSame, nameList]
  | binary left op right leftSame rightSame =>
      rw [fold, fold_binary_name_list, leftSame, rightSame, nameList]
  | logical left op right leftSame rightSame =>
      rw [fold, nameList, leftSame, rightSame, nameList]
  | assign name value valueSame => rw [fold, nameList, valueSame, nameList]
  | absent => rfl

theorem names_fold (expr : Expr) : expr.fold.names = expr.names := by
  rw [names, names, name_list_fold]

end ExprCompiler.Expr
