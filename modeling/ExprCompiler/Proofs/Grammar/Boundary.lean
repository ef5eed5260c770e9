import ExprCompiler.Proofs.Grammar.Outcome

/-!
Reading up to a boundary. An expression ends at a semicolon at the latest. What is read in front of
one depends on nothing behind it, whether the reading succeeds or fails, and neither does the place
where it stops. An error can name the boundary itself: its first token, or else the end mark.
-/

namespace ExprCompiler.Grammar

def IsBoundary (tail : List Token) : Prop := ∀ token ∈ tail.head?, token.kind = .semicolon

/-- A reading of the tokens in front of a boundary that is the same for every boundary. Only an
error that names the boundary tells one from another. -/
inductive Local (read : Token → List Token → Reading) (body : List Token) : Prop where
  | parsed (expr : Expr) (left : List Token) (isSuffix : left <:+ body)
      (same : ∀ finish tail, IsBoundary tail →
        read finish (body ++ tail) = (.ok expr, left ++ tail))
  | failed (error : Token → ParseError) (left : List Token) (isSuffix : left <:+ body)
      (same : ∀ finish tail, IsBoundary tail →
        read finish (body ++ tail) = (.error (error (tail.headD finish)), left ++ tail))

namespace Local

variable {body : List Token} {read inner : Token → List Token → Reading}

theorem andThen {next : Expr → Token → List Token → Reading} (first : Local read body)
    (later : ∀ expr left, left <:+ body → Local (next expr) left) :
    Local (fun finish tokens =>
      Grammar.andThen (read finish tokens) fun expr rest => next expr finish rest) body := by
  cases first with
  | failed error left isSuffix same =>
      refine .failed error left isSuffix ?_
      intro finish tail boundary
      rw [same finish tail boundary]
      rfl
  | parsed expr left isSuffix same =>
      cases later expr left isSuffix with
      | failed error rest inLeft sameNext =>
          refine .failed error rest (inLeft.trans isSuffix) ?_
          intro finish tail boundary
          rw [same finish tail boundary]
          exact sameNext finish tail boundary
      | parsed other rest inLeft sameNext =>
          refine .parsed other rest (inLeft.trans isSuffix) ?_
          intro finish tail boundary
          rw [same finish tail boundary]
          exact sameNext finish tail boundary

theorem behind {token : Token} (later : Local inner body)
    (same : ∀ finish tokens, read finish (token :: tokens) = inner finish tokens) :
    Local read (token :: body) := by
  cases later with
  | failed error left isSuffix sameLater =>
      refine .failed error left (isSuffix.trans (List.suffix_cons token body)) ?_
      intro finish tail boundary
      rw [List.cons_append, same, sameLater finish tail boundary]
  | parsed expr left isSuffix sameLater =>
      refine .parsed expr left (isSuffix.trans (List.suffix_cons token body)) ?_
      intro finish tail boundary
      rw [List.cons_append, same, sameLater finish tail boundary]

theorem pure (expr : Expr) : Local (fun _ tokens => (.ok expr, tokens)) body :=
  .parsed expr body (List.suffix_refl body) fun _ _ _ => rfl

theorem refusal (error : ParseError) : Local (fun _ tokens => (.error error, tokens)) body :=
  .failed (fun _ => error) body (List.suffix_refl body) fun _ _ _ => rfl

/-- A reading that finds the boundary where it needs a token. -/
theorem missing {cause : ParseCause}
    (atEnd : ∀ finish, read finish [] = (.error ⟨finish, cause⟩, []))
    (atSemicolon : ∀ finish token rest, token.kind = .semicolon →
      read finish (token :: rest) = (.error ⟨token, cause⟩, token :: rest)) : Local read [] := by
  refine .failed (fun mark => ⟨mark, cause⟩) [] (List.suffix_refl []) ?_
  intro finish tail boundary
  cases tail with
  | nil => exact atEnd finish
  | cons token rest => exact atSemicolon finish token rest (boundary token rfl)

end Local

def Bounded (body : List Token) : Prop :=
  ∀ tiers, Local (fun finish tokens => (parseTiers finish tiers tokens).outcome) body

theorem close_group_local (expr : Expr) (body : List Token) :
    Local (fun finish => closeGroup finish expr) body := by
  cases body with
  | nil =>
      apply @Local.missing _ .closingParenExpected
      · intro finish
        rfl
      · intro finish token rest isSemicolon
        rw [closeGroup, if_neg (by simp [isSemicolon])]
  | cons closing rest =>
      by_cases closes : closing.kind = .rightParen
      · apply (Local.pure (.grouping expr)).behind
        intro finish tokens
        rw [closeGroup, if_pos closes]
      · refine .failed (fun _ => ⟨closing, .closingParenExpected⟩) _ (List.suffix_refl _) ?_
        intro finish tail _
        rw [List.cons_append, closeGroup, if_neg closes]

theorem operand_local {body : List Token}
    (shorter : ∀ fewer : List Token, fewer.length < body.length → Bounded fewer) :
    Local (fun finish tokens => (parseOperand finish tokens).outcome) body := by
  cases body with
  | nil =>
      apply @Local.missing _ .unexpectedExpression
      · intro finish
        rw [parseOperand]
        rfl
      · intro finish token rest isSemicolon
        rw [outcome_operand, isSemicolon]
        rfl
  | cons token after =>
      have boundedAfter := shorter after (by simp)
      by_cases isSign : token.kind ∈ [TokenKind.not, .minus]
      · have operand := boundedAfter []
        simp only [parseTiers] at operand
        apply (operand.andThen fun right _ _ => Local.pure (.unary token right)).behind
        intro finish tokens
        rw [outcome_operand, if_pos isSign]
      · by_cases isConstant : token.kind ∈ [TokenKind.number, .string, .trueWord, .falseWord]
        · apply (Local.pure (.literal (constantValue token))).behind
          intro finish tokens
          rw [outcome_constant isConstant]
        · by_cases isName : token.kind = .identifier
          · apply (Local.pure (.reference token)).behind
            intro finish tokens
            rw [outcome_reference isName]
          · by_cases opens : token.kind = .leftParen
            · apply ((boundedAfter Tier.all).andThen fun inner left _ =>
                close_group_local inner left).behind
              intro finish tokens
              rw [outcome_operand, if_neg isSign, if_neg isConstant, if_neg isName, if_pos opens]
            · refine .failed (fun _ => ⟨token, .unexpectedExpression⟩) _ (List.suffix_refl _) ?_
              intro finish tail _
              rw [List.cons_append, outcome_operand, if_neg isSign, if_neg isConstant,
                if_neg isName, if_neg opens]

theorem boundary_stops {tail : List Token} (boundary : IsBoundary tail) (tier : Tier) :
    ∀ op ∈ tail.head?, op.kind ∉ tier.operators := by
  intro op isFirst
  rw [boundary op isFirst]
  cases tier <;> decide

theorem operators_local {tier : Tier} {tighter : List Tier} {bound : Nat}
    (shorter : ∀ fewer : List Token, fewer.length < bound → Bounded fewer) (left : Expr)
    (body : List Token) (within : body.length ≤ bound) :
    Local (fun finish tokens => (parseOperators finish tier tighter left tokens).outcome) body := by
  induction left, body using by_operators tier with
  | stops left body others =>
      refine .parsed left body (List.suffix_refl _) ?_
      intro finish tail boundary
      cases body with
      | nil => exact outcome_operators_other (boundary_stops boundary tier)
      | cons op after => exact outcome_operators_other (by simpa using others)
  | refused left op after isOperator fits =>
      apply (Local.refusal ⟨op, .invalidAssignmentTarget⟩).behind
      intro finish tokens
      rw [outcome_operators_refused isOperator fits]
  | toRight left op after isOperator fits grouping =>
      rw [List.length_cons] at within
      apply ((shorter after (by omega) (tier :: tighter)).andThen fun right _ _ =>
        Local.pure (tier.node left op right)).behind
      intro finish tokens
      rw [outcome_operators_to_right isOperator fits grouping]
  | toLeft left op after isOperator fits grouping goesOn =>
      rw [List.length_cons] at within
      have rounds (right : Expr) (rest : List Token) (isSuffix : rest <:+ after) :
          Local (fun finish tokens =>
            (parseOperators finish tier tighter (tier.node left op right) tokens).outcome) rest := by
        have less := isSuffix.length_le
        exact goesOn right rest less (by omega)
      apply ((shorter after (by omega) tighter).andThen rounds).behind
      intro finish tokens
      rw [outcome_operators_to_left isOperator fits grouping]

/-- Every expression is read locally. -/
theorem bounded (body : List Token) : Bounded body := by
  intro tiers
  induction body, tiers using by_tiers with
  | operand body shorter =>
      simp only [parseTiers]
      exact operand_local shorter
  | tier body tier tighter shorter tighterLocal =>
      simp only [outcome_tiers]
      apply tighterLocal.andThen
      intro left rest isSuffix
      exact operators_local shorter left rest isSuffix.length_le

end ExprCompiler.Grammar
