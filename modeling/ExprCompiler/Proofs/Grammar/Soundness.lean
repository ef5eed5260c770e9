import ExprCompiler.Proofs.Grammar.Outcome

/-!
Every expression that is read has a derivation: the tree is the one of the derivation, and the
tokens that were used up are its words. The proof goes by the number of tokens. Within one number
it climbs from the tightest symbol to the loosest, since a reader first reads an operand of the next
tighter symbol on the same tokens; everything else that it reads stands behind at least one token.
-/

namespace ExprCompiler.Grammar

/-- The symbol whose operators a tier holds. -/
def symbolOf : Tier → Symbol
  | .assignment => .assignment
  | .equality => .equality
  | .comparison => .comparison
  | .implication => .implication
  | .disjunction => .or
  | .exclusion => .xor
  | .conjunction => .and
  | .additive => .additive
  | .multiplicative => .multiplicative

def Symbol.tiers : Symbol → List Tier
  | assignment => Tier.all
  | equality => Tier.all.drop 1
  | comparison => Tier.all.drop 2
  | implication => Tier.all.drop 3
  | or => Tier.all.drop 4
  | xor => Tier.all.drop 5
  | and => Tier.all.drop 6
  | additive => Tier.all.drop 7
  | multiplicative => Tier.all.drop 8
  | unary => []
  | primary => []

theorem tiers_symbol_of (tier : Tier) :
    (symbolOf tier).tiers = tier :: (symbolOf tier).operand.tiers := by
  cases tier <;> rfl

theorem symbol_of_ne_primary (tier : Tier) : symbolOf tier ≠ .primary := by
  cases tier <;> simp [symbolOf]

theorem operand_ne_primary (tier : Tier) : (symbolOf tier).operand ≠ .primary := by
  cases tier <;> simp [symbolOf, Symbol.operand]

theorem mem_repeated_of_groups_left {tier : Tier} (grouping : tier.groupsRight = false) :
    (symbolOf tier).repeated = tier.operators := by
  cases tier <;> first | rfl | cases grouping

theorem node_of_groups_left {tier : Tier} (grouping : tier.groupsRight = false) :
    (symbolOf tier).node = tier.node := by
  cases tier <;> first | rfl | cases grouping

theorem takes_left_of_groups_left {tier : Tier} (grouping : tier.groupsRight = false)
    (left : Expr) : tier.takesLeft left = true := by
  cases tier <;> first | rfl | cases grouping

/-- What holds of the unary symbol and climbs from the operands of a tier to the tier holds of every
symbol that is read with tiers. -/
theorem tightest_first {motive : Symbol → Prop} (unary : motive .unary)
    (climb : ∀ tier, motive (symbolOf tier).operand → motive (symbolOf tier)) (symbol : Symbol)
    (looser : symbol ≠ .primary) : motive symbol := by
  have multiplicative := climb .multiplicative unary
  have additive := climb .additive multiplicative
  have and := climb .conjunction additive
  have xor := climb .exclusion and
  have or := climb .disjunction xor
  have implication := climb .implication or
  have comparison := climb .comparison implication
  have equality := climb .equality comparison
  have assignment := climb .assignment equality
  cases symbol <;> first | assumption | contradiction

theorem phrase_of_reference {symbol : Symbol} (phrase : Phrase symbol) {name : Token}
    (root : phrase.tree = .reference name) :
    phrase.tokens = [name] ∧ name.kind = .identifier := by
  induction phrase with
  | single operand _ operandReference => exact operandReference root
  | reference token isName =>
      cases root
      exact ⟨rfl, isName⟩
  | @round symbol => cases symbol <;> simp [Phrase.tree, Symbol.node] at root
  | _ => simp [Phrase.tree] at root

theorem extend_to_the_left {tier : Tier} (grouping : tier.groupsRight = false)
    (before : Phrase (symbolOf tier)) (op : Token) (isOperator : op.kind ∈ tier.operators)
    (last : Phrase (symbolOf tier).operand) :
    ∃ phrase : Phrase (symbolOf tier), phrase.tree = tier.node before.tree op last.tree ∧
      phrase.tokens = before.tokens ++ op :: last.tokens := by
  have isRepeated : op.kind ∈ (symbolOf tier).repeated := by
    rw [mem_repeated_of_groups_left grouping]
    exact isOperator
  refine ⟨.round before op last isRepeated, ?_, rfl⟩
  rw [Phrase.tree, node_of_groups_left grouping]

theorem extend_to_the_right {tier : Tier} (grouping : tier.groupsRight = true)
    (left : Phrase (symbolOf tier).operand) (op : Token) (isOperator : op.kind ∈ tier.operators)
    (fits : tier.takesLeft left.tree = true) (right : Phrase (symbolOf tier)) :
    ∃ phrase : Phrase (symbolOf tier), phrase.tree = tier.node left.tree op right.tree ∧
      phrase.tokens = left.tokens ++ op :: right.tokens := by
  cases tier with
  | assignment =>
      simp only [Tier.takesLeft] at fits
      cases root : left.tree with
      | reference name =>
          obtain ⟨words, isName⟩ := phrase_of_reference left root
          refine ⟨.assign name op right isName (by simpa [Tier.operators] using isOperator), rfl, ?_⟩
          rw [words]
          rfl
      | _ => simp [root, Expr.isReference] at fits
  | implication => exact ⟨.imply left op right isOperator, rfl, rfl⟩
  | _ => cases grouping

/-- Whatever is read off a list of tokens is derived by the tokens that are used up. -/
def Sound (finish : Token) (tokens : List Token) : Prop :=
  ∀ symbol : Symbol, symbol ≠ .primary → ∀ expr rest,
    (parseTiers finish symbol.tiers tokens).outcome = (.ok expr, rest) →
      ∃ phrase : Phrase symbol, phrase.tree = expr ∧ phrase.tokens ++ rest = tokens

variable {finish : Token}

theorem operand_sound {tokens rest : List Token} {expr : Expr}
    (shorter : ∀ fewer : List Token, fewer.length < tokens.length → Sound finish fewer)
    (read : (parseOperand finish tokens).outcome = (.ok expr, rest)) :
    ∃ phrase : Phrase .unary, phrase.tree = expr ∧ phrase.tokens ++ rest = tokens := by
  obtain ⟨token, after, rfl, alternatives⟩ := operand_cases read
  have soundAfter := shorter after (by simp)
  rcases alternatives with ⟨isSign, right, readRight, rfl⟩ | ⟨isConstant, rfl, rfl⟩ |
    ⟨isName, rfl, rfl⟩ | ⟨opens, inner, closing, closes, rfl, readInner⟩
  · obtain ⟨phrase, rfl, rfl⟩ := soundAfter .unary (by simp) right rest
      (by rw [Symbol.tiers, parseTiers]; exact readRight)
    exact ⟨.signed token phrase isSign, rfl, rfl⟩
  · exact ⟨.single (.constant token isConstant) (by simp), rfl, rfl⟩
  · exact ⟨.single (.reference token isName) (by simp), rfl, rfl⟩
  · obtain ⟨phrase, rfl, rfl⟩ := soundAfter .assignment (by simp) inner (closing :: rest) readInner
    refine ⟨.single (.group token phrase closing opens closes) (by simp), rfl, ?_⟩
    simp [Phrase.tokens]

/-- The loop over the operators of a tier that groups to the left extends a phrase round by round. -/
theorem rounds_sound {tier : Tier} (grouping : tier.groupsRight = false) {bound : Nat}
    (shorter : ∀ fewer : List Token, fewer.length < bound → Sound finish fewer)
    (before : Phrase (symbolOf tier)) (tokens rest : List Token) (expr : Expr)
    (within : tokens.length ≤ bound)
    (read : (parseOperators finish tier (symbolOf tier).operand.tiers before.tree tokens).outcome =
      (.ok expr, rest)) :
    ∃ phrase : Phrase (symbolOf tier), phrase.tree = expr ∧
      phrase.tokens ++ rest = before.tokens ++ tokens := by
  induction size : tokens.length using Nat.strongRecOn generalizing before tokens with
  | ind size earlier =>
      rcases operators_cases read with ⟨rfl, rfl⟩ |
        ⟨op, after, right, between, rfl, isOperator, fits, further⟩
      · exact ⟨before, rfl, rfl⟩
      · rcases further with ⟨impossible, _⟩ | ⟨_, readRight, readRest⟩
        · rw [grouping] at impossible
          cases impossible
        · simp only [List.length_cons] at within size
          obtain ⟨last, rfl, rfl⟩ := shorter after (by omega) _ (operand_ne_primary tier) right
            between readRight
          obtain ⟨longer, longerTree, longerTokens⟩ :=
            extend_to_the_left grouping before op isOperator last
          rw [← longerTree] at readRest
          simp only [List.length_append] at within size
          obtain ⟨phrase, tree, tokens⟩ := earlier between.length (by omega) longer between
            (by omega) readRest rfl
          refine ⟨phrase, tree, ?_⟩
          rw [tokens, longerTokens, List.append_assoc, List.cons_append]

theorem tier_sound {tokens : List Token} (tier : Tier)
    (shorter : ∀ fewer : List Token, fewer.length < tokens.length → Sound finish fewer)
    (operandSound : ∀ expr rest,
      (parseTiers finish (symbolOf tier).operand.tiers tokens).outcome = (.ok expr, rest) →
        ∃ phrase : Phrase (symbolOf tier).operand,
          phrase.tree = expr ∧ phrase.tokens ++ rest = tokens)
    (expr : Expr) (rest : List Token)
    (read : (parseTiers finish (symbolOf tier).tiers tokens).outcome = (.ok expr, rest)) :
    ∃ phrase : Phrase (symbolOf tier), phrase.tree = expr ∧ phrase.tokens ++ rest = tokens := by
  rw [tiers_symbol_of] at read
  obtain ⟨left, between, readLeft, readRest⟩ := operand_of_tiers read
  obtain ⟨operand, rfl, rfl⟩ := operandSound left between readLeft
  have begun := List.length_pos_iff.mpr (phrase_tokens_ne_nil operand)
  cases grouping : tier.groupsRight with
  | false =>
      have room : between.length ≤ (operand.tokens ++ between).length := by simp
      obtain ⟨phrase, tree, words⟩ := rounds_sound grouping shorter
        (.single operand (symbol_of_ne_primary tier)) between rest expr room readRest
      exact ⟨phrase, tree, words⟩
  | true =>
      rcases operators_cases readRest with ⟨rfl, rfl⟩ |
        ⟨op, after, right, _, rfl, isOperator, fits, further⟩
      · exact ⟨.single operand (symbol_of_ne_primary tier), rfl, rfl⟩
      · rcases further with ⟨_, readRight, rfl⟩ | ⟨impossible, _⟩
        · rw [← tiers_symbol_of] at readRight
          obtain ⟨value, rfl, rfl⟩ := shorter after
            (by simp only [List.length_append, List.length_cons]; omega) _
            (symbol_of_ne_primary tier) right rest readRight
          obtain ⟨phrase, tree, words⟩ := extend_to_the_right grouping operand op isOperator fits value
          refine ⟨phrase, tree, ?_⟩
          rw [words, List.append_assoc, List.cons_append]
        · rw [grouping] at impossible
          cases impossible

theorem sound (tokens : List Token) : Sound finish tokens := by
  induction size : tokens.length using Nat.strongRecOn generalizing tokens with
  | ind size earlier =>
      have shorter : ∀ fewer : List Token, fewer.length < tokens.length → Sound finish fewer := by
        intro fewer less
        exact earlier fewer.length (by omega) fewer rfl
      refine tightest_first ?_ ?_
      · intro expr rest read
        rw [Symbol.tiers, parseTiers] at read
        exact operand_sound shorter read
      · intro tier operandSound
        exact tier_sound tier shorter operandSound

end ExprCompiler.Grammar
