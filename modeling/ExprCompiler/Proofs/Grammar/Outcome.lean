import ExprCompiler.Expr.Parse
import ExprCompiler.Proofs.Grammar.Unique

/-!
What the reading of an expression gives, without the bounds that its termination needs. The
equations below say how each reader continues after a tree and after a failure; the proofs about the
grammar use nothing else of the readers.
-/

namespace ExprCompiler

def ParseStep.outcome {bound : Nat} : ParseStep bound → Except ParseError Expr × List Token
  | parsed expr rest _ => (.ok expr, rest)
  | failed error rest _ => (.error error, rest)

@[simp] theorem ParseStep.outcome_widen {bound larger : Nat} (room : bound ≤ larger)
    (step : ParseStep bound) : (step.widen room).outcome = step.outcome := by
  cases step <;> rfl

namespace Grammar

variable {finish : Token}

abbrev Reading := Except ParseError Expr × List Token

/-- Goes on behind a tree. A failure stays as it is. -/
def andThen (reading : Reading) (next : Expr → List Token → Reading) : Reading :=
  match reading.1 with
  | .ok expr => next expr reading.2
  | .error _ => reading

theorem and_then_ok {reading : Reading} {next : Expr → List Token → Reading} {expr : Expr}
    {rest : List Token} (read : andThen reading next = (.ok expr, rest)) :
    ∃ first between, reading = (.ok first, between) ∧ next first between = (.ok expr, rest) := by
  obtain ⟨result, between⟩ := reading
  cases result with
  | ok first => exact ⟨first, between, rfl, read⟩
  | error error => cases read

/-- The tiers are read from the tightest on, each of them on the same tokens; whatever else is read
stands behind a token. -/
theorem by_tiers {motive : List Token → List Tier → Prop}
    (operand : ∀ tokens : List Token,
      (∀ fewer : List Token, fewer.length < tokens.length → ∀ tiers, motive fewer tiers) →
        motive tokens [])
    (tier : ∀ (tokens : List Token) tier tighter,
      (∀ fewer : List Token, fewer.length < tokens.length → ∀ tiers, motive fewer tiers) →
        motive tokens tighter → motive tokens (tier :: tighter))
    (tokens : List Token) (tiers : List Tier) : motive tokens tiers := by
  induction size : tokens.length using Nat.strongRecOn generalizing tokens tiers with
  | ind size earlier =>
      have shorter (fewer : List Token) (less : fewer.length < tokens.length)
          (tiers : List Tier) : motive fewer tiers :=
        earlier fewer.length (by omega) fewer tiers rfl
      induction tiers with
      | nil => exact operand tokens shorter
      | cons first tighter tighterRead => exact tier tokens first tighter shorter tighterRead

/-- Behind an operand, a tier stops, or refuses its operator, or ends behind a right side, or goes
on behind one. -/
theorem by_operators (tier : Tier) {motive : Expr → List Token → Prop}
    (stops : ∀ left tokens, (∀ op ∈ tokens.head?, op.kind ∉ tier.operators) → motive left tokens)
    (refused : ∀ left op after, op.kind ∈ tier.operators → tier.takesLeft left = false →
      motive left (op :: after))
    (toRight : ∀ left op after, op.kind ∈ tier.operators → tier.takesLeft left = true →
      tier.groupsRight = true → motive left (op :: after))
    (toLeft : ∀ left op after, op.kind ∈ tier.operators → tier.takesLeft left = true →
      tier.groupsRight = false →
        (∀ right rest, rest.length ≤ after.length → motive (tier.node left op right) rest) →
          motive left (op :: after))
    (left : Expr) (tokens : List Token) : motive left tokens := by
  induction size : tokens.length using Nat.strongRecOn generalizing left tokens with
  | ind size earlier =>
      by_cases others : ∀ op ∈ tokens.head?, op.kind ∉ tier.operators
      · exact stops left tokens others
      · cases tokens with
        | nil => exact absurd (fun _ member => nomatch member) others
        | cons op after =>
            have isOperator : op.kind ∈ tier.operators := by simpa using others
            rw [List.length_cons] at size
            cases fits : tier.takesLeft left with
            | false => exact refused left op after isOperator fits
            | true =>
                cases grouping : tier.groupsRight with
                | true => exact toRight left op after isOperator fits grouping
                | false =>
                    apply toLeft left op after isOperator fits grouping
                    intro right rest fewer
                    exact earlier rest.length (by omega) _ rest rfl

theorem outcome_tiers (tier : Tier) (tighter : List Tier) (tokens : List Token) :
    (parseTiers finish (tier :: tighter) tokens).outcome =
      andThen (parseTiers finish tighter tokens).outcome fun left rest =>
        (parseOperators finish tier tighter left rest).outcome := by
  rw [parseTiers]
  split <;> rename_i step <;> rw [step]
  · rfl
  · rw [ParseStep.outcome_widen]
    rfl

theorem outcome_operators_other {tier : Tier} {tighter : List Tier} {left : Expr}
    {tokens : List Token} (other : ∀ op ∈ tokens.head?, op.kind ∉ tier.operators) :
    (parseOperators finish tier tighter left tokens).outcome = (.ok left, tokens) := by
  cases tokens with
  | nil => rw [parseOperators]; rfl
  | cons op after =>
      have absent : ¬tier.operators.contains op.kind = true := by
        simpa using other op (by simp)
      rw [parseOperators, if_neg absent]
      rfl

theorem outcome_operators_refused {tier : Tier} {left : Expr} {op : Token}
    (isOperator : op.kind ∈ tier.operators) (refused : tier.takesLeft left = false)
    (tighter : List Tier) (after : List Token) :
    (parseOperators finish tier tighter left (op :: after)).outcome =
      (.error ⟨op, .invalidAssignmentTarget⟩, after) := by
  rw [parseOperators, if_pos (by simpa using isOperator), if_pos (by simp [refused])]
  rfl

theorem outcome_operators_to_right {tier : Tier} {left : Expr} {op : Token}
    (isOperator : op.kind ∈ tier.operators) (fits : tier.takesLeft left = true)
    (grouping : tier.groupsRight = true) (tighter : List Tier) (after : List Token) :
    (parseOperators finish tier tighter left (op :: after)).outcome =
      andThen (parseTiers finish (tier :: tighter) after).outcome fun right rest =>
        (.ok (tier.node left op right), rest) := by
  rw [parseOperators, if_pos (by simpa using isOperator), if_neg (by simp [fits]), if_pos grouping]
  split <;> rename_i step <;> rw [step] <;> rfl

theorem outcome_operators_to_left {tier : Tier} {left : Expr} {op : Token}
    (isOperator : op.kind ∈ tier.operators) (fits : tier.takesLeft left = true)
    (grouping : tier.groupsRight = false) (tighter : List Tier) (after : List Token) :
    (parseOperators finish tier tighter left (op :: after)).outcome =
      andThen (parseTiers finish tighter after).outcome fun right rest =>
        (parseOperators finish tier tighter (tier.node left op right) rest).outcome := by
  rw [parseOperators, if_pos (by simpa using isOperator), if_neg (by simp [fits]),
    if_neg (by simp [grouping])]
  split <;> rename_i step <;> rw [step]
  · rfl
  · rw [ParseStep.outcome_widen]
    rfl

def closeGroup (finish : Token) (inner : Expr) : List Token → Reading
  | [] => (.error ⟨finish, .closingParenExpected⟩, [])
  | closing :: rest =>
      if closing.kind = .rightParen then (.ok (.grouping inner), rest)
      else (.error ⟨closing, .closingParenExpected⟩, closing :: rest)

theorem outcome_operand (token : Token) (after : List Token) :
    (parseOperand finish (token :: after)).outcome =
      if token.kind ∈ [TokenKind.not, .minus] then
        andThen (parseOperand finish after).outcome fun right rest =>
          (.ok (.unary token right), rest)
      else if token.kind ∈ [TokenKind.number, .string, .trueWord, .falseWord] then
        (.ok (.literal (constantValue token)), after)
      else if token.kind = .identifier then (.ok (.reference token), after)
      else if token.kind = .leftParen then
        andThen (parseTiers finish Tier.all after).outcome (closeGroup finish)
      else (.error ⟨token, .unexpectedExpression⟩, token :: after) := by
  rw [parseOperand]
  split
  case h_1 kind | h_2 kind =>
    rw [if_pos (by simp [kind])]
    split <;> rename_i step <;> rw [step] <;> rfl
  case h_3 kind | h_4 kind | h_5 kind | h_6 kind =>
    rw [if_neg (by simp [kind]), if_pos (by simp [kind]), constantValue, kind]
    rfl
  case h_7 kind =>
    rw [if_neg (by simp [kind]), if_neg (by simp [kind]), if_pos kind]
    rfl
  case h_8 kind =>
    rw [if_neg (by simp [kind]), if_neg (by simp [kind]), if_neg (by simp [kind]), if_pos kind]
    split <;> rename_i step <;> rw [step]
    · rfl
    · rfl
    · simp only [andThen, ParseStep.outcome, closeGroup]
      split <;> rename_i isClose <;> split at isClose <;> cases isClose
      · rw [if_pos ‹_›]
      · rw [if_neg ‹_›]
  case h_9 =>
    rw [if_neg (by simp_all), if_neg (by simp_all), if_neg (by assumption), if_neg (by assumption)]
    rfl

theorem outcome_tiers_parsed {tier : Tier} {tighter : List Tier} {tokens rest : List Token}
    {left : Expr} (read : (parseTiers finish tighter tokens).outcome = (.ok left, rest)) :
    (parseTiers finish (tier :: tighter) tokens).outcome =
      (parseOperators finish tier tighter left rest).outcome := by
  rw [outcome_tiers, read]
  rfl

theorem operand_of_tiers {tier : Tier} {tighter : List Tier} {tokens rest : List Token}
    {expr : Expr} (read : (parseTiers finish (tier :: tighter) tokens).outcome = (.ok expr, rest)) :
    ∃ left between, (parseTiers finish tighter tokens).outcome = (.ok left, between) ∧
      (parseOperators finish tier tighter left between).outcome = (.ok expr, rest) := by
  rw [outcome_tiers] at read
  exact and_then_ok read

theorem outcome_operators_right {tier : Tier} {tighter : List Tier} {left right : Expr} {op : Token}
    {after rest : List Token} (isOperator : op.kind ∈ tier.operators)
    (fits : tier.takesLeft left = true) (grouping : tier.groupsRight = true)
    (read : (parseTiers finish (tier :: tighter) after).outcome = (.ok right, rest)) :
    (parseOperators finish tier tighter left (op :: after)).outcome =
      (.ok (tier.node left op right), rest) := by
  rw [outcome_operators_to_right isOperator fits grouping, read]
  rfl

theorem outcome_operators_left {tier : Tier} {tighter : List Tier} {left right : Expr} {op : Token}
    {after rest : List Token} (isOperator : op.kind ∈ tier.operators)
    (fits : tier.takesLeft left = true) (grouping : tier.groupsRight = false)
    (read : (parseTiers finish tighter after).outcome = (.ok right, rest)) :
    (parseOperators finish tier tighter left (op :: after)).outcome =
      (parseOperators finish tier tighter (tier.node left op right) rest).outcome := by
  rw [outcome_operators_to_left isOperator fits grouping, read]
  rfl

/-- Behind an operator its right side is read, and a tier that groups to the left goes on behind
it. -/
theorem behind_operator_cases {tier : Tier} {tighter : List Tier} {left expr : Expr} {op : Token}
    {after rest : List Token} (isOperator : op.kind ∈ tier.operators)
    (read : (parseOperators finish tier tighter left (op :: after)).outcome = (.ok expr, rest)) :
    tier.takesLeft left = true ∧
      ∃ right between,
        ((tier.groupsRight = true ∧
            (parseTiers finish (tier :: tighter) after).outcome = (.ok right, rest) ∧
            expr = tier.node left op right) ∨
          (tier.groupsRight = false ∧
            (parseTiers finish tighter after).outcome = (.ok right, between) ∧
            (parseOperators finish tier tighter (tier.node left op right) between).outcome =
              (.ok expr, rest))) := by
  cases fits : tier.takesLeft left with
  | false =>
      rw [outcome_operators_refused isOperator fits] at read
      cases read
  | true =>
      cases grouping : tier.groupsRight with
      | true =>
          rw [outcome_operators_to_right isOperator fits grouping] at read
          obtain ⟨right, between, readRight, same⟩ := and_then_ok read
          cases same
          exact ⟨rfl, right, rest, .inl ⟨rfl, readRight, rfl⟩⟩
      | false =>
          rw [outcome_operators_to_left isOperator fits grouping] at read
          obtain ⟨right, between, readRight, readRest⟩ := and_then_ok read
          exact ⟨rfl, right, between, .inr ⟨rfl, readRight, readRest⟩⟩

/-- Where the operators after an operand are read, either none follows, or one does. -/
theorem operators_cases {tier : Tier} {tighter : List Tier} {left expr : Expr}
    {tokens rest : List Token}
    (read : (parseOperators finish tier tighter left tokens).outcome = (.ok expr, rest)) :
    (expr = left ∧ rest = tokens) ∨
      ∃ op after right between, tokens = op :: after ∧ op.kind ∈ tier.operators ∧
        tier.takesLeft left = true ∧
        ((tier.groupsRight = true ∧
            (parseTiers finish (tier :: tighter) after).outcome = (.ok right, rest) ∧
            expr = tier.node left op right) ∨
          (tier.groupsRight = false ∧
            (parseTiers finish tighter after).outcome = (.ok right, between) ∧
            (parseOperators finish tier tighter (tier.node left op right) between).outcome =
              (.ok expr, rest))) := by
  by_cases others : ∀ op ∈ tokens.head?, op.kind ∉ tier.operators
  · rw [outcome_operators_other others] at read
    cases read
    exact .inl ⟨rfl, rfl⟩
  · cases tokens with
    | nil => exact absurd (fun _ member => nomatch member) others
    | cons op after =>
        have isOperator : op.kind ∈ tier.operators := by simpa using others
        obtain ⟨fits, right, between, further⟩ := behind_operator_cases isOperator read
        exact .inr ⟨op, after, right, between, rfl, isOperator, fits, further⟩

theorem outcome_signed {op : Token} {after rest : List Token} {right : Expr}
    (isOperator : op.kind ∈ [TokenKind.not, .minus])
    (read : (parseOperand finish after).outcome = (.ok right, rest)) :
    (parseOperand finish (op :: after)).outcome = (.ok (.unary op right), rest) := by
  rw [outcome_operand, if_pos isOperator, read]
  rfl

theorem outcome_constant {token : Token} {after : List Token}
    (isConstant : token.kind ∈ [TokenKind.number, .string, .trueWord, .falseWord]) :
    (parseOperand finish (token :: after)).outcome =
      (.ok (.literal (constantValue token)), after) := by
  have notSign : token.kind ∉ [TokenKind.not, .minus] := by
    intro isSign
    simp only [List.mem_cons, List.not_mem_nil, or_false] at isConstant isSign
    rcases isSign with kind | kind <;> simp [kind] at isConstant
  rw [outcome_operand, if_neg notSign, if_pos isConstant]

theorem outcome_reference {token : Token} {after : List Token} (isName : token.kind = .identifier) :
    (parseOperand finish (token :: after)).outcome = (.ok (.reference token), after) := by
  rw [outcome_operand, isName]
  rfl

theorem outcome_group {opening closing : Token} {after rest : List Token} {inner : Expr}
    (opens : opening.kind = .leftParen) (closes : closing.kind = .rightParen)
    (read : (parseTiers finish Tier.all after).outcome = (.ok inner, closing :: rest)) :
    (parseOperand finish (opening :: after)).outcome = (.ok (.grouping inner), rest) := by
  rw [outcome_operand, opens, read]
  exact if_pos closes

theorem close_group_ok {inner expr : Expr} {tokens rest : List Token}
    (closed : closeGroup finish inner tokens = (.ok expr, rest)) :
    ∃ closing, closing.kind = .rightParen ∧ expr = .grouping inner ∧ tokens = closing :: rest := by
  cases tokens with
  | nil => cases closed
  | cons closing after =>
      rw [closeGroup] at closed
      split at closed <;> cases closed
      exact ⟨closing, ‹_›, rfl, rfl⟩

theorem operand_cases {tokens rest : List Token} {expr : Expr}
    (read : (parseOperand finish tokens).outcome = (.ok expr, rest)) :
    ∃ token after, tokens = token :: after ∧
      ((token.kind ∈ [TokenKind.not, .minus] ∧
          ∃ right, (parseOperand finish after).outcome = (.ok right, rest) ∧
            expr = .unary token right) ∨
        (token.kind ∈ [TokenKind.number, .string, .trueWord, .falseWord] ∧ rest = after ∧
          expr = .literal (constantValue token)) ∨
        (token.kind = .identifier ∧ rest = after ∧ expr = .reference token) ∨
        (token.kind = .leftParen ∧
          ∃ inner closing, closing.kind = .rightParen ∧ expr = .grouping inner ∧
            (parseTiers finish Tier.all after).outcome = (.ok inner, closing :: rest))) := by
  cases tokens with
  | nil =>
      rw [parseOperand] at read
      cases read
  | cons token after =>
      refine ⟨token, after, rfl, ?_⟩
      rw [outcome_operand] at read
      split at read
      · obtain ⟨right, between, readRight, same⟩ := and_then_ok read
        cases same
        exact .inl ⟨‹_›, right, readRight, rfl⟩
      · split at read
        · cases read
          exact .inr (.inl ⟨‹_›, rfl, rfl⟩)
        · split at read
          · cases read
            exact .inr (.inr (.inl ⟨‹_›, rfl, rfl⟩))
          · split at read
            · obtain ⟨inner, between, readInner, closed⟩ := and_then_ok read
              obtain ⟨closing, closes, rfl, rfl⟩ := close_group_ok closed
              exact .inr (.inr (.inr ⟨‹_›, inner, closing, closes, rfl, readInner⟩))
            · cases read

end Grammar
end ExprCompiler
