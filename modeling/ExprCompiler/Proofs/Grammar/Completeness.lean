import ExprCompiler.Proofs.Grammar.Soundness

/-!
Every derivation is found: the words of a phrase are read as its tree whenever no operator follows
that the phrase could go on with. Together with soundness this settles which programs are read
without an error, and that none of them can be derived in two ways.
-/

namespace ExprCompiler.Grammar

/-- No operator of the symbol or of a tighter one stands in front. -/
def Stops (symbol : Symbol) (rest : List Token) : Prop :=
  ∀ token ∈ rest.head?, operatorRank token.kind < symbol.rank

theorem stops_nil (symbol : Symbol) : Stops symbol [] := by
  intro token member
  cases member

theorem stops_cons {symbol : Symbol} {token : Token} (rest : List Token)
    (looser : operatorRank token.kind < symbol.rank) : Stops symbol (token :: rest) := by
  intro first member
  cases member
  exact looser

theorem Stops.tighten {symbol tighter : Symbol} {rest : List Token} (stops : Stops symbol rest)
    (ranks : symbol.rank ≤ tighter.rank) : Stops tighter rest := by
  intro token member
  exact Nat.lt_of_lt_of_le (stops token member) ranks

theorem rank_le_operand (symbol : Symbol) : symbol.rank ≤ symbol.operand.rank := by
  cases symbol <;> decide

theorem operator_rank_of_tier {tier : Tier} {kind : TokenKind} (isOperator : kind ∈ tier.operators) :
    operatorRank kind = (symbolOf tier).rank := by
  cases tier <;> simp [Tier.operators] at isOperator <;>
    rcases isOperator with rfl | rfl | rfl | rfl <;> rfl

theorem Stops.not_operator {tier : Tier} {rest : List Token} (stops : Stops (symbolOf tier) rest) :
    ∀ op ∈ rest.head?, op.kind ∉ tier.operators := by
  intro op member isOperator
  have looser := stops op member
  rw [operator_rank_of_tier isOperator] at looser
  exact Nat.lt_irrefl _ looser

theorem symbol_of_tiers {symbol : Symbol} {tier : Tier} {tighter : List Tier}
    (read : symbol.tiers = tier :: tighter) :
    symbol = symbolOf tier ∧ tighter = symbol.operand.tiers := by
  cases symbol <;> cases read <;> exact ⟨rfl, rfl⟩

variable {finish : Token}

/-- An operand is read by any tiers that have no operator behind it. -/
theorem outcome_tiers_of_operand {tokens rest : List Token} {expr : Expr} (tiers : List Tier)
    (read : (parseOperand finish tokens).outcome = (.ok expr, rest))
    (others : ∀ tier ∈ tiers, ∀ op ∈ rest.head?, op.kind ∉ tier.operators) :
    (parseTiers finish tiers tokens).outcome = (.ok expr, rest) := by
  induction tiers with
  | nil =>
      rw [parseTiers]
      exact read
  | cons tier tighter induction =>
      have readTighter := induction (by intro other member; exact others other (by simp [member]))
      rw [outcome_tiers_parsed readTighter]
      exact outcome_operators_other (others tier (by simp))

def Complete (finish : Token) {symbol : Symbol} (phrase : Phrase symbol) : Prop :=
  ∀ rest, Stops symbol rest →
    (parseTiers finish symbol.tiers (phrase.tokens ++ rest)).outcome = (.ok phrase.tree, rest)

/-- After the words of a phrase, a tier that groups to the left looks for more operators, with the
tree of the phrase as their left side. -/
def GoesOn (finish : Token) {symbol : Symbol} (phrase : Phrase symbol) : Prop :=
  ∀ tier tighter, symbol.tiers = tier :: tighter → tier.groupsRight = false →
    ∀ rest, Stops symbol.operand rest →
      (parseTiers finish symbol.tiers (phrase.tokens ++ rest)).outcome =
        (parseOperators finish tier tighter phrase.tree rest).outcome

theorem complete_assign (name op : Token) (value : Phrase .assignment)
    (isName : name.kind = .identifier) (isOperator : op.kind = .colonEqual)
    (valueComplete : Complete finish value) :
    Complete finish (.assign name op value isName isOperator) := by
  intro rest stops
  have readName : (parseTiers finish (Tier.all.drop 1) (name :: op :: (value.tokens ++ rest))).outcome =
      (.ok (.reference name), op :: (value.tokens ++ rest)) := by
    apply outcome_tiers_of_operand _ (outcome_reference isName)
    intro tier member first isFirst
    cases isFirst
    rw [isOperator]
    revert member
    cases tier <;> decide
  have isTierOperator : op.kind ∈ Tier.assignment.operators := by
    rw [isOperator]
    decide
  change (parseTiers finish (.assignment :: Tier.all.drop 1)
    (name :: op :: (value.tokens ++ rest))).outcome = (.ok (.assign name value.tree), rest)
  rw [outcome_tiers_parsed readName]
  exact outcome_operators_right isTierOperator rfl rfl (valueComplete rest stops)

theorem complete_imply (left : Phrase .or) (op : Token) (right : Phrase .implication)
    (isOperator : op.kind ∈ [TokenKind.imp, .nimp]) (leftComplete : Complete finish left)
    (rightComplete : Complete finish right) : Complete finish (.imply left op right isOperator) := by
  intro rest stops
  have looser : operatorRank op.kind < Symbol.or.rank := by
    rw [operator_rank_implication isOperator]
    decide
  have readLeft := leftComplete (op :: (right.tokens ++ rest)) (stops_cons _ looser)
  have words : left.tokens ++ op :: right.tokens ++ rest =
      left.tokens ++ op :: (right.tokens ++ rest) := by simp
  change (parseTiers finish (.implication :: Symbol.or.tiers)
    (left.tokens ++ op :: right.tokens ++ rest)).outcome = (.ok (.logical left.tree op right.tree), rest)
  rw [words, outcome_tiers_parsed readLeft]
  exact outcome_operators_right isOperator rfl rfl (rightComplete rest stops)

theorem goes_on_single {symbol : Symbol} (operand : Phrase symbol.operand)
    (looser : symbol ≠ .primary) (operandComplete : Complete finish operand) :
    GoesOn finish (.single operand looser) := by
  intro tier tighter read grouping rest stops
  obtain ⟨_, rfl⟩ := symbol_of_tiers read
  rw [read]
  exact outcome_tiers_parsed (operandComplete rest stops)

theorem goes_on_round {symbol : Symbol} (before : Phrase symbol) (op : Token)
    (last : Phrase symbol.operand) (isOperator : op.kind ∈ symbol.repeated)
    (beforeGoesOn : GoesOn finish before) (lastComplete : Complete finish last) :
    GoesOn finish (.round before op last isOperator) := by
  intro tier tighter read grouping rest stops
  obtain ⟨rfl, rfl⟩ := symbol_of_tiers read
  have looser : operatorRank op.kind < (symbolOf tier).operand.rank := by
    rw [operator_rank_repeated isOperator, rank_operand _ (symbol_of_ne_primary tier)]
    omega
  have begun := beforeGoesOn tier _ read grouping (op :: (last.tokens ++ rest)) (stops_cons _ looser)
  have words : before.tokens ++ op :: last.tokens ++ rest =
      before.tokens ++ op :: (last.tokens ++ rest) := by simp
  rw [Phrase.tokens, words, begun, outcome_operators_left (by rwa [← mem_repeated_of_groups_left grouping])
    (takes_left_of_groups_left grouping _) grouping (lastComplete rest stops)]
  rw [Phrase.tree, node_of_groups_left grouping]

theorem GoesOn.complete {tier : Tier} {phrase : Phrase (symbolOf tier)}
    (grouping : tier.groupsRight = false) (goesOn : GoesOn finish phrase) :
    Complete finish phrase := by
  intro rest stops
  rw [goesOn tier _ (tiers_symbol_of tier) grouping rest (stops.tighten (rank_le_operand _))]
  exact outcome_operators_other stops.not_operator

theorem complete_single {symbol : Symbol} (operand : Phrase symbol.operand)
    (looser : symbol ≠ .primary) (operandComplete : Complete finish operand) :
    Complete finish (.single operand looser) := by
  intro rest stops
  have readOperand := operandComplete rest (stops.tighten (rank_le_operand symbol))
  cases read : symbol.tiers with
  | nil =>
      have same : symbol.operand.tiers = [] := by
        cases symbol <;> first | rfl | cases read
      rwa [same] at readOperand
  | cons tier tighter =>
      obtain ⟨rfl, rfl⟩ := symbol_of_tiers read
      simp only [Phrase.tokens]
      rw [outcome_tiers_parsed readOperand]
      exact outcome_operators_other stops.not_operator

theorem groups_left_of_repeated {symbol : Symbol} {kind : TokenKind}
    (isOperator : kind ∈ symbol.repeated) :
    ∃ tier, symbol = symbolOf tier ∧ tier.groupsRight = false := by
  cases symbol with
  | equality => exact ⟨.equality, rfl, rfl⟩
  | comparison => exact ⟨.comparison, rfl, rfl⟩
  | or => exact ⟨.disjunction, rfl, rfl⟩
  | xor => exact ⟨.exclusion, rfl, rfl⟩
  | and => exact ⟨.conjunction, rfl, rfl⟩
  | additive => exact ⟨.additive, rfl, rfl⟩
  | multiplicative => exact ⟨.multiplicative, rfl, rfl⟩
  | _ => cases isOperator

/-- Both properties at once, since a round needs that the phrase before it goes on. -/
theorem complete_and_goes_on {symbol : Symbol} (phrase : Phrase symbol) :
    Complete finish phrase ∧ GoesOn finish phrase := by
  induction phrase with
  | assign name op value isName isOperator valueRead =>
      refine ⟨complete_assign name op value isName isOperator valueRead.1, ?_⟩
      intro tier tighter read grouping
      cases read
      cases grouping
  | single operand looser operandRead =>
      exact ⟨complete_single operand looser operandRead.1,
        goes_on_single operand looser operandRead.1⟩
  | round before op last isOperator beforeRead lastRead =>
      have goesOn := goes_on_round before op last isOperator beforeRead.2 lastRead.1
      obtain ⟨tier, rfl, grouping⟩ := groups_left_of_repeated isOperator
      exact ⟨goesOn.complete grouping, goesOn⟩
  | imply left op right isOperator leftRead rightRead =>
      refine ⟨complete_imply left op right isOperator leftRead.1 rightRead.1, ?_⟩
      intro tier tighter read grouping
      cases read
      cases grouping
  | signed op operand isOperator operandRead =>
      refine ⟨?_, by intro tier tighter read; cases read⟩
      intro rest stops
      have readOperand := operandRead.1 rest stops
      simp only [Symbol.tiers, parseTiers, Phrase.tokens, List.cons_append] at readOperand ⊢
      exact outcome_signed isOperator readOperand
  | constant token isConstant =>
      refine ⟨?_, by intro tier tighter read; cases read⟩
      intro rest _
      simp only [Symbol.tiers, parseTiers, Phrase.tokens]
      exact outcome_constant isConstant
  | reference token isName =>
      refine ⟨?_, by intro tier tighter read; cases read⟩
      intro rest _
      simp only [Symbol.tiers, parseTiers, Phrase.tokens]
      exact outcome_reference isName
  | group opening inner closing opens closes innerRead =>
      refine ⟨?_, by intro tier tighter read; cases read⟩
      intro rest _
      have readInner := innerRead.1 (closing :: rest) (stops_cons _ (by rw [closes]; decide))
      have words : inner.tokens ++ [closing] ++ rest = inner.tokens ++ closing :: rest := by simp
      simp only [Symbol.tiers, parseTiers, Phrase.tokens, List.cons_append]
      rw [words]
      exact outcome_group opens closes readInner

theorem complete {symbol : Symbol} (phrase : Phrase symbol) : Complete finish phrase :=
  (complete_and_goes_on phrase).1

/-- Two phrases that start the same tokens, each up to where it has to stop, are the same. -/
theorem phrase_unique {symbol : Symbol} (phrase other : Phrase symbol) {rest otherRest : List Token}
    (stops : Stops symbol rest) (otherStops : Stops symbol otherRest)
    (same : phrase.tokens ++ rest = other.tokens ++ otherRest) :
    phrase = other ∧ rest = otherRest := by
  have read := @complete (.endOfInput 0) _ phrase rest stops
  have otherRead := @complete (.endOfInput 0) _ other otherRest otherStops
  rw [same, otherRead] at read
  simp only [Prod.mk.injEq, Except.ok.injEq] at read
  obtain ⟨sameTree, rfl⟩ := read
  exact ⟨phrase_determined phrase other sameTree.symm (List.append_cancel_right same), rfl⟩

end ExprCompiler.Grammar
