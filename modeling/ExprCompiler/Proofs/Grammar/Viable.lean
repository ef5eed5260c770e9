import ExprCompiler.Proofs.Grammar.Program

/-!
Viable prefixes. Behind an expression that was read stands no operator that it could go on with, so
one token behind it decides where it ends. Wherever a reading fails, the tokens in front of the one
that it names begin some phrase of the grammar, and together with that token they begin none: the
reading fails there whatever follows.
-/

namespace ExprCompiler.Grammar

section Lookahead

variable {finish : Token} {symbol : Symbol} {rest other : List Token}

theorem Stops.same_head (stops : Stops symbol rest) (same : other.head? = rest.head?) :
    Stops symbol other := by
  intro token member
  rw [same] at member
  exact stops token member

theorem stops_unary (rest : List Token) : Stops .unary rest := by
  intro token _
  have largest : operatorRank token.kind ≤ 9 := by
    cases token.kind <;> simp [operatorRank]
  exact Nat.lt_succ_of_le largest

theorem operator_of_rank {tier : Tier} {kind : TokenKind}
    (rank : operatorRank kind = (symbolOf tier).rank) : kind ∈ tier.operators := by
  cases tier <;> cases kind <;> first | decide | cases rank

/-- What stops the operands of a tier and is none of its operators stops the tier. -/
theorem Stops.loosen {tier : Tier} (stops : Stops (symbolOf tier).operand rest)
    (others : ∀ op ∈ rest.head?, op.kind ∉ tier.operators) : Stops (symbolOf tier) rest := by
  intro token member
  have operand := stops token member
  rw [rank_operand _ (symbol_of_ne_primary tier)] at operand
  have different : operatorRank token.kind ≠ (symbolOf tier).rank :=
    fun same => others token member (operator_of_rank same)
  omega

/-- Whatever is read from some tokens stops before an operator that it could go on with. -/
def Settles (finish : Token) (tokens : List Token) : Prop :=
  ∀ symbol : Symbol, symbol ≠ .primary → ∀ expr rest,
    (parseTiers finish symbol.tiers tokens).outcome = (.ok expr, rest) → Stops symbol rest

theorem operators_settle {tier : Tier} {bound : Nat}
    (shorter : ∀ fewer : List Token, fewer.length < bound → Settles finish fewer)
    {left expr : Expr} {tokens : List Token} (within : tokens.length ≤ bound)
    (stops : Stops (symbolOf tier).operand tokens)
    (read : (parseOperators finish tier (symbolOf tier).operand.tiers left tokens).outcome =
      (.ok expr, rest)) : Stops (symbolOf tier) rest := by
  induction size : tokens.length using Nat.strongRecOn generalizing left tokens with
  | ind size earlier =>
      by_cases others : ∀ op ∈ tokens.head?, op.kind ∉ tier.operators
      · rw [outcome_operators_other others] at read
        cases read
        exact stops.loosen others
      · cases tokens with
        | nil => exact absurd (fun _ member => nomatch member) others
        | cons op after =>
            have isOperator : op.kind ∈ tier.operators := by simpa using others
            rw [List.length_cons] at within size
            have settles := shorter after (by omega)
            obtain ⟨_, right, between, ⟨_, readRight, _⟩ | ⟨_, readRight, readRest⟩⟩ :=
              behind_operator_cases isOperator read
            · rw [← tiers_symbol_of] at readRight
              exact settles _ (symbol_of_ne_primary tier) right rest readRight
            · obtain ⟨last, _, words⟩ :=
                sound after _ (operand_ne_primary tier) right between readRight
              have fewer : between.length ≤ after.length := by simp [← words]
              exact earlier between.length (by omega) (by omega)
                (settles _ (operand_ne_primary tier) right between readRight) readRest rfl

theorem settles (tokens : List Token) : Settles finish tokens := by
  induction size : tokens.length using Nat.strongRecOn generalizing tokens with
  | ind size earlier =>
      have shorter : ∀ fewer : List Token, fewer.length < tokens.length → Settles finish fewer := by
        intro fewer less
        exact earlier fewer.length (by omega) fewer rfl
      refine tightest_first ?_ ?_
      · intro expr rest _
        exact stops_unary rest
      · intro tier operandSettles expr rest read
        rw [tiers_symbol_of] at read
        obtain ⟨left, between, readLeft, readRest⟩ := operand_of_tiers read
        obtain ⟨operand, _, words⟩ := sound tokens _ (operand_ne_primary tier) left between readLeft
        have fewer : between.length ≤ tokens.length := by simp [← words]
        exact operators_settle shorter fewer (operandSettles left between readLeft) readRest

/-- What is read is a phrase, and it is read in front of all tokens that begin with the same one. -/
theorem phrase_of_outcome {tokens : List Token} {expr : Expr} (looser : symbol ≠ .primary)
    (read : (parseTiers finish symbol.tiers tokens).outcome = (.ok expr, rest)) :
    ∃ phrase : Phrase symbol, phrase.tree = expr ∧ phrase.tokens ++ rest = tokens ∧
      ∀ mark more, more.head? = rest.head? →
        (parseTiers mark symbol.tiers (phrase.tokens ++ more)).outcome = (.ok expr, more) := by
  obtain ⟨phrase, rfl, words⟩ := sound tokens symbol looser expr rest read
  refine ⟨phrase, rfl, words, ?_⟩
  intro mark more same
  exact complete phrase more ((settles tokens symbol looser _ rest read).same_head same)

end Lookahead

/-- Words that some phrase of the symbol begins with. -/
def Viable (symbol : Symbol) (front : List Token) : Prop :=
  ∃ phrase : Phrase symbol, front <+: phrase.tokens

namespace Viable

variable {symbol : Symbol} {tier : Tier} {op : Token} {front : List Token}

theorem phrase (phrase : Phrase symbol) : Viable symbol phrase.tokens :=
  ⟨phrase, List.prefix_refl _⟩

theorem single (viable : Viable symbol.operand front) (looser : symbol ≠ .primary) :
    Viable symbol front := by
  obtain ⟨operand, begins⟩ := viable
  exact ⟨.single operand looser, begins⟩

theorem nil (looser : symbol ≠ .primary) : Viable symbol [] := by
  let word : Token := ⟨.trueWord, [], .absent, ⟨0, .empty⟩, .empty⟩
  have primary : Viable Symbol.unary.operand [] := ⟨.constant word (by decide), List.nil_prefix⟩
  refine @tightest_first (Viable · []) (primary.single (by decide)) ?_ symbol looser
  intro tier operand
  exact operand.single (symbol_of_ne_primary tier)

theorem signed (viable : Viable .unary front) (isOperator : op.kind ∈ [TokenKind.not, .minus]) :
    Viable .unary (op :: front) := by
  obtain ⟨operand, begins⟩ := viable
  exact ⟨.signed op operand isOperator, List.cons_prefix_cons.mpr ⟨rfl, begins⟩⟩

theorem group {opening : Token} (viable : Viable .assignment front)
    (opens : opening.kind = .leftParen) : Viable .unary (opening :: front) := by
  obtain ⟨inner, begins⟩ := viable
  let closing : Token := ⟨.rightParen, [], .absent, ⟨0, .empty⟩, .empty⟩
  refine ⟨.single (.group opening inner closing opens rfl) (by decide), ?_⟩
  exact List.cons_prefix_cons.mpr ⟨rfl, begins.trans (List.prefix_append _ _)⟩

theorem to_the_left (viable : Viable (symbolOf tier).operand front)
    (grouping : tier.groupsRight = false) (before : Phrase (symbolOf tier))
    (isOperator : op.kind ∈ tier.operators) :
    Viable (symbolOf tier) (before.tokens ++ op :: front) := by
  obtain ⟨last, begins⟩ := viable
  obtain ⟨phrase, _, words⟩ := extend_to_the_left grouping before op isOperator last
  refine ⟨phrase, ?_⟩
  rw [words, List.prefix_append_right_inj]
  exact List.cons_prefix_cons.mpr ⟨rfl, begins⟩

theorem to_the_right (viable : Viable (symbolOf tier) front) (grouping : tier.groupsRight = true)
    (left : Phrase (symbolOf tier).operand) (isOperator : op.kind ∈ tier.operators)
    (fits : tier.takesLeft left.tree = true) :
    Viable (symbolOf tier) (left.tokens ++ op :: front) := by
  obtain ⟨right, begins⟩ := viable
  obtain ⟨phrase, _, words⟩ := extend_to_the_right grouping left op isOperator fits right
  refine ⟨phrase, ?_⟩
  rw [words, List.prefix_append_right_inj]
  exact List.cons_prefix_cons.mpr ⟨rfl, begins⟩

end Viable

end ExprCompiler.Grammar
