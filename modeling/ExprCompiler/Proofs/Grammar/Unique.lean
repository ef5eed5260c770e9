import ExprCompiler.Proofs.Grammar.Basic

/-!
A derivation is fixed by its words and its tree. The operator at the root of a tree tells which
symbol made it, since every operator belongs to one symbol; the number of tokens in a tree tells
where the words of one part end and those of the next begin.
-/

namespace ExprCompiler.Grammar

def Symbol.rank : Symbol → Nat
  | assignment => 1
  | equality => 2
  | comparison => 3
  | implication => 4
  | or => 5
  | xor => 6
  | and => 7
  | additive => 8
  | multiplicative => 9
  | unary => 10
  | primary => 11

/-- The place of the symbol that uses an operator; zero for tokens that are no operators. -/
def operatorRank : TokenKind → Nat
  | .colonEqual => 1
  | .equalEqual => 2
  | .bangEqual => 2
  | .greater => 3
  | .greaterEqual => 3
  | .less => 3
  | .lessEqual => 3
  | .imp => 4
  | .nimp => 4
  | .or => 5
  | .nor => 5
  | .xor => 6
  | .xnor => 6
  | .and => 7
  | .nand => 7
  | .plus => 8
  | .minus => 8
  | .star => 9
  | .slash => 9
  | .percent => 9
  | _ => 0

theorem rank_operand (symbol : Symbol) (looser : symbol ≠ .primary) :
    symbol.operand.rank = symbol.rank + 1 := by
  cases symbol <;> first | rfl | contradiction

theorem operator_rank_repeated {symbol : Symbol} {kind : TokenKind}
    (isOperator : kind ∈ symbol.repeated) : operatorRank kind = symbol.rank := by
  cases symbol <;> simp [Symbol.repeated] at isOperator <;>
    rcases isOperator with rfl | rfl | rfl | rfl <;> rfl

theorem operator_rank_implication {kind : TokenKind}
    (isOperator : kind ∈ [TokenKind.imp, .nimp]) : operatorRank kind = 4 := by
  simp at isOperator
  rcases isOperator with rfl | rfl <;> rfl

def rootOperator? : Expr → Option TokenKind
  | .binary _ op _ => some op.kind
  | .logical _ op _ => some op.kind
  | _ => none

theorem root_operator_node (symbol : Symbol) (left right : Expr) (op : Token) :
    rootOperator? (symbol.node left op right) = some op.kind := by
  cases symbol <;> rfl

theorem node_injective {symbol : Symbol} {left right left' right' : Expr} {op op' : Token}
    (same : symbol.node left op right = symbol.node left' op' right') :
    left = left' ∧ op = op' ∧ right = right' := by
  cases symbol <;> simpa [Symbol.node] using same

/-- A phrase holds no operator outside parentheses that is looser than its symbol. -/
theorem rank_le_root_operator {symbol : Symbol} (phrase : Phrase symbol) {kind : TokenKind}
    (root : rootOperator? phrase.tree = some kind) : symbol.rank ≤ operatorRank kind := by
  induction phrase with
  | single operand looser operandRank =>
      have tighter := operandRank root
      rw [rank_operand _ looser] at tighter
      omega
  | round before op last isOperator _ _ =>
      rw [Phrase.tree, root_operator_node] at root
      rw [← Option.some.inj root]
      exact Nat.le_of_eq (operator_rank_repeated isOperator).symm
  | imply left op right isOperator _ _ =>
      rw [← Option.some.inj root]
      exact Nat.le_of_eq (operator_rank_implication isOperator).symm
  | _ => simp [Phrase.tree, rootOperator?] at root

/-- Only a phrase of the loosest symbol can be an assignment. -/
theorem symbol_of_assign {symbol : Symbol} (phrase : Phrase symbol) {name : Token} {value : Expr}
    (root : phrase.tree = .assign name value) : symbol = .assignment := by
  induction phrase with
  | assign => rfl
  | @single symbol operand looser operandSymbol =>
      have impossible := operandSymbol root
      cases symbol <;> simp [Symbol.operand] at impossible
  | @round symbol before op last isOperator =>
      exfalso
      cases symbol <;> simp [Phrase.tree, Symbol.node] at root
  | _ => simp [Phrase.tree] at root

/-- Two parts around an operator are cut at the same place if the left trees agree. -/
theorem split_at_operator {symbol other : Symbol} (left left' : Phrase symbol)
    (right right' : Phrase other) (op op' : Token) (sameLeft : left.tree = left'.tree)
    (same : left.tokens ++ op :: right.tokens = left'.tokens ++ op' :: right'.tokens) :
    left.tokens = left'.tokens ∧ right.tokens = right'.tokens := by
  have sameLength : left.tokens.length = left'.tokens.length := by
    rw [tokens_length, tokens_length, sameLeft]
  have parts := List.append_inj same sameLength
  exact ⟨parts.1, (List.cons.inj parts.2).2⟩

/-! The root of a tree tells how a phrase with that tree was built. -/

section Roots

variable {symbol : Symbol} {left right value : Expr} {name op : Token}

theorem assign_of_tree (phrase : Phrase .assignment) (root : phrase.tree = .assign name value) :
    ∃ op valuePhrase isName isOperator,
      phrase = .assign name op valuePhrase isName isOperator ∧ valuePhrase.tree = value := by
  cases phrase with
  | assign name' op valuePhrase isName isOperator =>
      cases root
      exact ⟨op, valuePhrase, isName, isOperator, rfl, rfl⟩
  | single operand looser => cases symbol_of_assign operand root
  | round before op last fits => cases fits

theorem operand_root_ne (operand : Phrase symbol.operand) (looser : symbol ≠ .primary)
    {kind : TokenKind} (rank : operatorRank kind = symbol.rank) :
    rootOperator? operand.tree ≠ some kind := by
  intro root
  have tighter := rank_le_root_operator operand root
  rw [rank_operand symbol looser] at tighter
  omega

theorem round_of_tree (phrase : Phrase symbol) (fits : op.kind ∈ symbol.repeated)
    (root : phrase.tree = symbol.node left op right) :
    ∃ before last, phrase = .round before op last fits ∧ before.tree = left ∧
      last.tree = right := by
  cases phrase with
  | round before op' last fits' =>
      obtain ⟨rfl, rfl, rfl⟩ := node_injective root
      exact ⟨before, last, rfl, rfl, rfl⟩
  | single operand looser =>
      have atRoot : rootOperator? operand.tree = some op.kind := by
        rw [show operand.tree = _ from root, root_operator_node]
      exact absurd atRoot (operand_root_ne operand looser (operator_rank_repeated fits))
  | assign | imply | signed | constant | reference | group => cases fits

theorem imply_of_tree (phrase : Phrase .implication) (fits : op.kind ∈ [TokenKind.imp, .nimp])
    (root : phrase.tree = .logical left op right) :
    ∃ before last, phrase = .imply before op last fits ∧ before.tree = left ∧
      last.tree = right := by
  cases phrase with
  | imply before op' last fits' =>
      cases root
      exact ⟨before, last, rfl, rfl, rfl⟩
  | single operand looser =>
      have atRoot : rootOperator? operand.tree = some op.kind := by
        rw [show operand.tree = _ from root, rootOperator?]
      exact absurd atRoot (operand_root_ne operand looser (operator_rank_implication fits))
  | round _ _ _ fits' => cases fits'

theorem primary_tree_ne_unary (phrase : Phrase .primary) : phrase.tree ≠ .unary op right := by
  intro root
  cases phrase with
  | single _ looser => exact absurd rfl looser
  | round _ _ _ fits => cases fits
  | constant | reference | group => cases root

theorem signed_of_tree (phrase : Phrase .unary) (root : phrase.tree = .unary op right) :
    ∃ operand fits, phrase = .signed op operand fits ∧ operand.tree = right := by
  cases phrase with
  | signed op' operand fits =>
      cases root
      exact ⟨operand, fits, rfl, rfl⟩
  | single operand _ => exact absurd root (primary_tree_ne_unary operand)
  | round _ _ _ fits => cases fits

theorem constant_of_tree {word : Value} (phrase : Phrase .primary)
    (root : phrase.tree = .literal word) :
    ∃ token isConstant, phrase = .constant token isConstant := by
  cases phrase with
  | constant token isConstant => exact ⟨token, isConstant, rfl⟩
  | single _ looser => exact absurd rfl looser
  | round _ _ _ fits => cases fits
  | reference | group => cases root

theorem reference_of_tree (phrase : Phrase .primary) (root : phrase.tree = .reference name) :
    ∃ isName, phrase = .reference name isName := by
  cases phrase with
  | reference token isName =>
      cases root
      exact ⟨isName, rfl⟩
  | single _ looser => exact absurd rfl looser
  | round _ _ _ fits => cases fits
  | constant | group => cases root

theorem group_of_tree (phrase : Phrase .primary) (root : phrase.tree = .grouping value) :
    ∃ opening inner closing opens closes,
      phrase = .group opening inner closing opens closes ∧ inner.tree = value := by
  cases phrase with
  | group opening inner closing opens closes =>
      cases root
      exact ⟨opening, inner, closing, opens, closes, rfl, rfl⟩
  | single _ looser => exact absurd rfl looser
  | round _ _ _ fits => cases fits
  | constant | reference => cases root

/-- No other way to build a phrase of a symbol gives the tree of one of its operands. -/
theorem single_of_tree (operand : Phrase symbol.operand) (looser : symbol ≠ .primary)
    (phrase : Phrase symbol) (root : phrase.tree = operand.tree) :
    ∃ other, phrase = .single other looser := by
  cases phrase with
  | single other _ => exact ⟨other, rfl⟩
  | assign => cases symbol_of_assign operand root.symm
  | round before op last fits =>
      have atRoot : rootOperator? operand.tree = some op.kind := by
        rw [show operand.tree = _ from root.symm, Phrase.tree, root_operator_node]
      exact absurd atRoot (operand_root_ne operand looser (operator_rank_repeated fits))
  | imply before op last fits =>
      have atRoot : rootOperator? operand.tree = some op.kind := by
        rw [show operand.tree = _ from root.symm, Phrase.tree, rootOperator?]
      exact absurd atRoot (operand_root_ne operand looser (operator_rank_implication fits))
  | signed => exact absurd root.symm (primary_tree_ne_unary operand)
  | constant | reference | group => exact absurd rfl looser

end Roots

theorem phrase_determined {symbol : Symbol} (phrase other : Phrase symbol)
    (sameTree : phrase.tree = other.tree) (sameTokens : phrase.tokens = other.tokens) :
    phrase = other := by
  induction phrase with
  | assign name op value isName isOperator valueSame =>
      obtain ⟨op', value', _, _, rfl, tree⟩ := assign_of_tree other sameTree.symm
      simp only [Phrase.tokens, List.cons.injEq, true_and] at sameTokens
      obtain ⟨rfl, tokens⟩ := sameTokens
      rw [valueSame value' tree.symm tokens]
  | single operand looser operandSame =>
      obtain ⟨operand', rfl⟩ := single_of_tree operand looser other sameTree.symm
      rw [operandSame operand' sameTree sameTokens]
  | round before op last fits beforeSame lastSame =>
      obtain ⟨before', last', rfl, treeBefore, treeLast⟩ := round_of_tree other fits sameTree.symm
      obtain ⟨tokensBefore, tokensLast⟩ :=
        split_at_operator before before' last last' op op treeBefore.symm sameTokens
      rw [beforeSame before' treeBefore.symm tokensBefore, lastSame last' treeLast.symm tokensLast]
  | imply left op right fits leftSame rightSame =>
      obtain ⟨left', right', rfl, treeLeft, treeRight⟩ := imply_of_tree other fits sameTree.symm
      obtain ⟨tokensLeft, tokensRight⟩ :=
        split_at_operator left left' right right' op op treeLeft.symm sameTokens
      rw [leftSame left' treeLeft.symm tokensLeft, rightSame right' treeRight.symm tokensRight]
  | signed op operand fits operandSame =>
      obtain ⟨operand', _, rfl, tree⟩ := signed_of_tree other sameTree.symm
      simp only [Phrase.tokens, List.cons.injEq, true_and] at sameTokens
      rw [operandSame operand' tree.symm sameTokens]
  | constant token =>
      obtain ⟨token', _, rfl⟩ := constant_of_tree other sameTree.symm
      cases sameTokens
      rfl
  | reference token =>
      obtain ⟨_, rfl⟩ := reference_of_tree other sameTree.symm
      rfl
  | group opening inner closing opens closes innerSame =>
      obtain ⟨opening', inner', closing', _, _, rfl, tree⟩ := group_of_tree other sameTree.symm
      have sameLength : inner.tokens.length = inner'.tokens.length := by
        rw [tokens_length, tokens_length, tree]
      simp only [Phrase.tokens, List.cons.injEq] at sameTokens
      obtain ⟨rfl, tokens⟩ := sameTokens
      obtain ⟨innerTokens, sameClosing⟩ := List.append_inj tokens sameLength
      cases sameClosing
      rw [innerSame inner' tree.symm innerTokens]

end ExprCompiler.Grammar
