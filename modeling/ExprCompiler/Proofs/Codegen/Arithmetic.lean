import ExprCompiler.Codegen
import ExprCompiler.Expr.Fold

/-!
Arithmetic trees: those that code can be generated for. They are made of word literals, declared
variables, parentheses, the minus sign and the five arithmetic operators. Folding neither makes a
tree arithmetic nor keeps it from being so.
-/

namespace ExprCompiler

inductive Expr.Arithmetic (declared : List Bytes) : Expr → Prop where
  | literal (word : Word) : Arithmetic declared (.literal (.int word))
  | reference (name : Token) (known : name.lexeme ∈ declared) : Arithmetic declared (.reference name)
  | grouping {inner : Expr} (part : Arithmetic declared inner) :
      Arithmetic declared (.grouping inner)
  | negation {op : Token} {right : Expr} (isMinus : op.kind = .minus)
      (part : Arithmetic declared right) : Arithmetic declared (.unary op right)
  | binary {left right : Expr} {op : Token} (hasCode : isArithmetic op.kind = true)
      (first : Arithmetic declared left) (second : Arithmetic declared right) :
      Arithmetic declared (.binary left op right)

theorem arithmetic_kinds {kind : TokenKind} (hasCode : isArithmetic kind = true) :
    kind = .plus ∨ kind = .minus ∨ kind = .star ∨ kind = .slash ∨ kind = .percent := by
  simpa [isArithmetic] using hasCode

namespace Expr

variable {declared : List Bytes}

theorem arithmetic_of_supported {expr : Expr} (supported : expr.unsupported declared = []) :
    expr.Arithmetic declared := by
  induction expr with
  | literal value =>
      cases value with
      | int word => exact .literal word
      | _ => simp [unsupported] at supported
  | reference name =>
      rw [unsupported] at supported
      split at supported
      · rename_i known
        exact .reference name (by simpa using known)
      · cases supported
  | grouping inner induction => exact .grouping (induction supported)
  | unary op right induction =>
      simp only [unsupported, List.append_eq_nil_iff] at supported
      refine .negation ?_ (induction supported.1)
      by_cases isMinus : op.kind = .minus
      · exact isMinus
      · simp [isMinus] at supported
  | binary left op right leftInduction rightInduction =>
      simp only [unsupported, List.append_eq_nil_iff] at supported
      refine .binary ?_ (leftInduction supported.1.1) (rightInduction supported.1.2)
      by_cases hasCode : isArithmetic op.kind = true
      · exact hasCode
      · simp [hasCode] at supported
  | logical left op right _ _ => cases supported
  | assign name value _ => cases supported
  | absent => cases supported

theorem arithmetic_of_fold_grouping {inner : Expr}
    (folded : (foldGrouping inner).Arithmetic declared) : inner.Arithmetic declared := by
  unfold foldGrouping at folded
  split at folded
  · exact folded
  · cases folded with
    | grouping part => exact part

theorem arithmetic_of_fold_unary {op : Token} {right : Expr}
    (folded : (foldUnary op right).Arithmetic declared) :
    op.kind = .minus ∧ right.Arithmetic declared := by
  unfold foldUnary at folded
  split at folded
  · rename_i word
    split at folded
    · rename_i isMinus
      exact ⟨isMinus, .literal word⟩
    · cases folded with
      | negation isMinus part => exact ⟨isMinus, part⟩
  · cases folded with
    | negation isMinus part => exact ⟨isMinus, part⟩

theorem arithmetic_of_fold_binary {left right : Expr} {op : Token}
    (folded : (foldBinary left op right).Arithmetic declared) :
    isArithmetic op.kind = true ∧ left.Arithmetic declared ∧ right.Arithmetic declared := by
  unfold foldBinary at folded
  split at folded
  · rename_i first second
    split at folded
    · rename_i word result
      refine ⟨?_, .literal first, .literal second⟩
      unfold foldWords? at result
      split at result <;> rename_i kind
      · rw [kind]; rfl
      · rw [kind]; rfl
      · rw [kind]; rfl
      · rw [kind]; rfl
      · rw [kind]; rfl
      · cases result
    · cases folded with
      | binary hasCode left right => exact ⟨hasCode, left, right⟩
  · cases folded with
    | binary hasCode left right => exact ⟨hasCode, left, right⟩

theorem arithmetic_of_fold {expr : Expr} (folded : expr.fold.Arithmetic declared) :
    expr.Arithmetic declared := by
  induction expr with
  | literal value => exact folded
  | reference name => exact folded
  | grouping inner induction => exact .grouping (induction (arithmetic_of_fold_grouping folded))
  | unary op right induction =>
      obtain ⟨isMinus, part⟩ := arithmetic_of_fold_unary folded
      exact .negation isMinus (induction part)
  | binary left op right leftInduction rightInduction =>
      obtain ⟨hasCode, first, second⟩ := arithmetic_of_fold_binary folded
      exact .binary hasCode (leftInduction first) (rightInduction second)
  | logical left op right _ _ => cases folded
  | assign name value _ => cases folded
  | absent => cases folded

section Code

variable (mode : DivisionMode)

theorem code_negation {op : Token} (right : Expr) (isMinus : op.kind = .minus) :
    (unary op right).code mode =
      right.code mode ++
        (Line.pop .eax :: ([Line.op .neg [.register .eax]] ++ [Line.push .eax])) := by
  simp [code, isMinus]

theorem code_binary (left right : Expr) (op : Token) :
    (binary left op right).code mode =
      left.code mode ++ (right.code mode ++ (Line.pop .ebx :: Line.pop .eax ::
        (operatorLines mode op.kind ++ [Line.push .eax]))) := by
  simp [code]

/-- The lines of the code of trees that are the same for all of them. -/
def workLines : List Line :=
  [Line.pop .eax, Line.pop .ebx, Line.push .eax, Line.op .neg [.register .eax]] ++
    [.plus, .minus, .star, .slash, .percent].flatMap (operatorLines mode)

theorem forall_code (property : Line → Prop) {expr : Expr} (arithmetic : expr.Arithmetic declared)
    (literal : ∀ word : Word, property (Line.op .push [.immediate word.toInt]))
    (reference : ∀ name ∈ declared,
      property (Line.op .push [.memory (some .dword) (.label (variableLabel name)) 0]))
    (work : ∀ line ∈ workLines mode, property line) : ∀ line ∈ expr.code mode, property line := by
  have pop : property (Line.pop .eax) := work _ (by simp [workLines])
  have popSecond : property (Line.pop .ebx) := work _ (by simp [workLines])
  have push : property (Line.push .eax) := work _ (by simp [workLines])
  have negate : property (Line.op .neg [.register .eax]) := work _ (by simp [workLines])
  induction arithmetic with
  | literal word =>
      intro line member
      rw [List.mem_singleton.mp member]
      exact literal word
  | reference name known =>
      intro line member
      rw [List.mem_singleton.mp member]
      exact reference name.lexeme known
  | grouping _ inner => exact inner
  | @negation op right isMinus _ inRight =>
      intro line member
      rw [code_negation mode right isMinus] at member
      simp only [List.mem_append, List.mem_cons, List.not_mem_nil, or_false] at member
      rcases member with part | rfl | rfl | rfl
      · exact inRight line part
      · exact pop
      · exact negate
      · exact push
  | @binary left right op hasCode _ _ inLeft inRight =>
      have operator : ∀ line ∈ operatorLines mode op.kind, property line := by
        intro line member
        apply work line
        have kinds : op.kind ∈ [TokenKind.plus, .minus, .star, .slash, .percent] := by
          simpa using arithmetic_kinds hasCode
        rw [workLines, List.mem_append]
        exact .inr (List.mem_flatMap.mpr ⟨op.kind, kinds, member⟩)
      intro line member
      rw [code_binary] at member
      simp only [List.mem_append, List.mem_cons, List.not_mem_nil, or_false] at member
      rcases member with part | part | rfl | rfl | part | rfl
      · exact inLeft line part
      · exact inRight line part
      · exact popSecond
      · exact pop
      · exact operator line part
      · exact push

end Code

/-- How many words of the stack the code of a tree takes at most. -/
def stackDepth : Expr → Nat
  | literal _ => 1
  | reference _ => 1
  | grouping inner => inner.stackDepth
  | unary _ right => right.stackDepth
  | binary left _ right => max left.stackDepth (1 + right.stackDepth)
  | _ => 0

theorem stack_depth_pos {expr : Expr} (arithmetic : expr.Arithmetic declared) :
    1 ≤ expr.stackDepth := by
  induction arithmetic with
  | literal word => exact Nat.le_refl 1
  | reference name _ => exact Nat.le_refl 1
  | grouping _ inner => exact inner
  | negation _ _ right => exact right
  | binary _ _ _ left _ => exact Nat.le_trans left (Nat.le_max_left _ _)

end Expr
end ExprCompiler
