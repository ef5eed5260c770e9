import ExprCompiler.Proofs.Grammar.Blame
import ExprCompiler.Proofs.Grammar.Indexed

/-!
A cursor in front of some words follows the reading off the list of them. It passes the tokens that
the reading uses up and stops where the reading stops, be it behind a tree or at an error.
-/

namespace ExprCompiler.Indexed

open Grammar

variable {input : List Token} {finish : Token} {stop : Nat}

/-- From an index on, the action comes to a reading: to its tree or its error, with the cursor in
front of the tokens that it leaves. The error is about the token under the cursor, or about the one
before it. -/
inductive Follows (input : List Token) (finish : Token) (stop : Nat) (action : Attempt Expr)
    (index : Nat) : Reading → Prop where
  | parsed (expr : Expr) (rest : List Token) (next : Nat) (onward : index ≤ next)
      (stands : Stands input finish stop rest next)
      (reaches : Reaches action.run index (.ok expr) next) :
      Follows input finish stop action index (.ok expr, rest)
  | failed (error : ParseError) (rest : List Token) (place next : Nat) (onward : index ≤ place)
      (near : place ≤ next ∧ next ≤ place + 1) (stands : Stands input finish stop rest next)
      (names : input[place]? = some error.token)
      (reaches : Reaches action.run index (.error ⟨place, error⟩) next) :
      Follows input finish stop action index (.error error, rest)

namespace Follows

variable {action : Attempt Expr} {index next : Nat} {reading : Reading} {rest : List Token}

theorem behind {whole : Attempt Expr} (follows : Follows input finish stop action next reading)
    (onward : index ≤ next)
    (steps : ∀ result last, Reaches action.run next result last →
      Reaches whole.run index result last) :
    Follows input finish stop whole index reading := by
  cases follows with
  | parsed expr rest last onward' stands reaches =>
      exact .parsed expr rest last (by omega) stands (steps _ _ reaches)
  | failed error rest place last onward' near stands names reaches =>
      exact .failed error rest place last (by omega) near stands names (steps _ _ reaches)

theorem first {Value : Type} {access : Access Value} {value : Value} {later : Value → Attempt Expr}
    (reaches : Reaches access index value next) (onward : index ≤ next)
    (follows : Follows input finish stop (later value) next reading) :
    Follows input finish stop (liftM access >>= later) index reading :=
  follows.behind onward fun _ _ second => reaches.first second

theorem andThen {later : Expr → Attempt Expr} {further : Expr → List Token → Reading}
    (follows : Follows input finish stop action index reading)
    (continues : ∀ expr rest next, reading = (.ok expr, rest) → index ≤ next →
      Stands input finish stop rest next →
        Follows input finish stop (later expr) next (further expr rest)) :
    Follows input finish stop (action >>= later) index (Grammar.andThen reading further) := by
  cases follows with
  | failed error rest place next onward near stands names reaches =>
      exact .failed error rest place next onward near stands names reaches.failed
  | parsed expr rest next onward stands reaches =>
      apply (continues expr rest next rfl onward stands).behind onward
      intro result last second
      exact reaches.attempt second

theorem value (expr : Expr) (stands : Stands input finish stop rest index) :
    Follows input finish stop (pure expr) index (.ok expr, rest) :=
  .parsed expr rest index (Nat.le_refl _) stands (.pure _ _)

theorem failure (cause : ParseCause) (stands : Stands input finish stop rest index) :
    Follows input finish stop (liftM here >>= fun place => fail place (rest.headD finish) cause)
      index (.error ⟨rest.headD finish, cause⟩, rest) := by
  apply first reaches_here (Nat.le_refl _)
  exact .failed _ rest index index (Nat.le_refl _) (by omega) stands stands.under rfl

theorem missing {kind : TokenKind} {later : Unit → Attempt Expr} (cause : ParseCause)
    (others : ∀ token ∈ rest.head?, token.kind ≠ kind)
    (stands : Stands input finish stop rest index) :
    Follows input finish stop (expect input kind cause >>= later) index
      (.error ⟨rest.headD finish, cause⟩, rest) :=
  .failed _ rest index index (Nat.le_refl _) (by omega) stands stands.under
    (stands.reaches_expect_none others).failed

theorem expected {kind : TokenKind} {cause : ParseCause} {token : Token} (expr : Expr)
    (isOne : token.kind = kind) (stands : Stands input finish stop (token :: rest) index) :
    Follows input finish stop (expect input kind cause >>= fun _ => pure expr) index
      (.ok expr, rest) :=
  .parsed expr rest (index + 1) (by omega) stands.behind
    ((stands.reaches_expect isOne).attempt (.pure _ _))

end Follows

/-- Whatever its tiers, an expression is read by a cursor in front of these tokens, if the calls may
go deep enough for so many tokens and tiers. -/
def Followed (input : List Token) (finish : Token) (stop : Nat) (tokens : List Token) : Prop :=
  ∀ tiers depth index, 20 * tokens.length + 2 * tiers.length + 2 ≤ depth →
    Stands input finish stop tokens index →
      Follows input finish stop (readTiers input depth tiers) index
        (parseTiers finish tiers tokens).outcome

variable {tokens : List Token} {depth index : Nat}

theorem close_group_follows (inner : Expr) (stands : Stands input finish stop tokens index) :
    Follows input finish stop
      (expect input .rightParen .closingParenExpected >>= fun _ => pure (.grouping inner)) index
      (closeGroup finish inner tokens) := by
  cases tokens with
  | nil => exact .missing .closingParenExpected (by simp) stands
  | cons closing rest =>
      rw [closeGroup]
      split
      · exact .expected (.grouping inner) ‹_› stands
      · exact .missing .closingParenExpected (by simpa) stands

theorem operand_follows
    (shorter : ∀ fewer : List Token, fewer.length < tokens.length →
      Followed input finish stop fewer) (deep : 20 * tokens.length < depth)
    (stands : Stands input finish stop tokens index) :
    Follows input finish stop (readOperand input depth) index
      (parseOperand finish tokens).outcome := by
  obtain ⟨below, rfl⟩ := Nat.exists_eq_add_one_of_ne_zero (Nat.ne_zero_of_lt deep)
  rw [readOperand]
  cases tokens with
  | nil =>
      rw [parseOperand]
      apply Follows.first (stands.reaches_accept_none (by simp)) (Nat.le_refl _)
      apply Follows.first stands.reaches_peek (Nat.le_refl _)
      have kind : (List.headD [] finish).kind = .eof := stands.isEnd
      rw [kind]
      exact .failure .unexpectedExpression stands
  | cons token after =>
      rw [List.length_cons] at deep
      have followedAfter := shorter after (by simp)
      by_cases isSign : token.kind ∈ [TokenKind.not, .minus]
      · -- Behind a sign an operand is read, as it is by no tiers at all.
        have operand := followedAfter [] (below + 1) (index + 1) (by simp; omega) stands.behind
        simp only [readTiers, parseTiers] at operand
        rw [outcome_operand, if_pos isSign]
        apply Follows.first (stands.reaches_accept isSign) (by omega)
        apply Follows.first (reaches_previous stands.under) (Nat.le_refl _)
        apply operand.andThen
        intro right rest next _ _ standsNext
        exact .value _ standsNext
      · apply Follows.first (stands.reaches_accept_none (by simpa using isSign)) (Nat.le_refl _)
        apply Follows.first stands.reaches_peek (Nat.le_refl _)
        rw [List.headD_cons]
        have advance := stands.reaches_advance
        split
        case h_1 kind | h_2 kind | h_3 kind | h_4 kind =>
          rw [outcome_constant (by simp [kind]), constantValue, kind]
          exact .first advance (by omega) (.value _ stands.behind)
        case h_5 kind =>
          rw [outcome_reference kind]
          exact .first advance (by omega) (.value _ stands.behind)
        case h_6 kind =>
          rw [outcome_operand, if_neg isSign, if_neg (by simp [kind]), if_neg (by simp [kind]),
            if_pos kind]
          have allTiers : Tier.all.length = 9 := rfl
          apply Follows.first advance (by omega)
          apply (followedAfter Tier.all below (index + 1) (by omega) stands.behind).andThen
          intro inner rest next _ _ standsNext
          exact close_group_follows inner standsNext
        case h_7 =>
          rw [outcome_operand, if_neg isSign, if_neg (by simp_all), if_neg (by assumption),
            if_neg (by assumption)]
          exact .failure .unexpectedExpression stands

theorem operators_follow {tier : Tier} {tighter : List Tier} {bound : Nat}
    (shorter : ∀ fewer : List Token, fewer.length < bound → Followed input finish stop fewer)
    (left : Expr) (within : tokens.length ≤ bound)
    (deep : 20 * tokens.length + 2 * tighter.length < depth)
    (stands : Stands input finish stop tokens index) :
    Follows input finish stop (readOperators input depth tier tighter left) index
      (parseOperators finish tier tighter left tokens).outcome := by
  induction left, tokens using by_operators tier generalizing depth index with
  | stops left tokens others =>
      obtain ⟨below, rfl⟩ := Nat.exists_eq_add_one_of_ne_zero (Nat.ne_zero_of_lt deep)
      rw [readOperators, outcome_operators_other others]
      apply Follows.first (stands.reaches_accept_none others) (Nat.le_refl _)
      exact .value left stands
  | refused left op after isOperator fits =>
      -- The error is at the operator, which the cursor has passed.
      obtain ⟨below, rfl⟩ := Nat.exists_eq_add_one_of_ne_zero (Nat.ne_zero_of_lt deep)
      rw [readOperators, outcome_operators_refused isOperator fits, fits]
      refine .failed _ after index (index + 1) (Nat.le_refl _) (by omega) stands.behind
        stands.under ?_
      apply (stands.reaches_accept isOperator).first
      apply (reaches_previous stands.under).first
      exact Reaches.first reaches_here rfl
  | toRight left op after isOperator fits grouping =>
      obtain ⟨below, rfl⟩ := Nat.exists_eq_add_one_of_ne_zero (Nat.ne_zero_of_lt deep)
      rw [List.length_cons] at within deep
      rw [readOperators, outcome_operators_to_right isOperator fits grouping, fits, grouping]
      apply Follows.first (stands.reaches_accept isOperator) (by omega)
      apply Follows.first (reaches_previous stands.under) (Nat.le_refl _)
      have right := shorter after (by omega) (tier :: tighter) below (index + 1)
        (by rw [List.length_cons]; omega) stands.behind
      apply right.andThen
      intro right rest next _ _ standsNext
      exact .value _ standsNext
  | toLeft left op after isOperator fits grouping goesOn =>
      obtain ⟨below, rfl⟩ := Nat.exists_eq_add_one_of_ne_zero (Nat.ne_zero_of_lt deep)
      rw [List.length_cons] at within deep
      rw [readOperators, outcome_operators_to_left isOperator fits grouping, fits, grouping]
      apply Follows.first (stands.reaches_accept isOperator) (by omega)
      apply Follows.first (reaches_previous stands.under) (Nat.le_refl _)
      apply (shorter after (by omega) tighter below (index + 1) (by omega) stands.behind).andThen
      intro right rest next read _ standsNext
      have less := (rest_of_tiers read).length_le
      exact goesOn right rest less (by omega) (by omega) standsNext

theorem followed (tokens : List Token) : Followed input finish stop tokens := by
  intro tiers
  induction tokens, tiers using by_tiers with
  | operand tokens shorter =>
      intro depth index deep stands
      obtain ⟨below, rfl⟩ := Nat.exists_eq_add_one_of_ne_zero (Nat.ne_zero_of_lt deep)
      rw [List.length_nil] at deep
      simp only [readTiers, parseTiers]
      exact operand_follows shorter (by omega) stands
  | tier tokens tier tighter shorter tighterFollows =>
      intro depth index deep stands
      obtain ⟨below, rfl⟩ := Nat.exists_eq_add_one_of_ne_zero (Nat.ne_zero_of_lt deep)
      rw [List.length_cons] at deep
      rw [readTiers, outcome_tiers]
      apply (tighterFollows below index (by omega) stands).andThen
      intro left rest next read onward standsNext
      have less := (rest_of_tiers read).length_le
      exact operators_follow shorter left less (by omega) standsNext

theorem statement_follows (deep : 20 * tokens.length + 20 ≤ depth)
    (stands : Stands input finish stop tokens index) :
    Follows input finish stop (readStatement input depth) index
      (parseStatement finish tokens).outcome := by
  rw [readStatement, outcome_parse_statement]
  apply (followed tokens Tier.all depth index deep stands).andThen
  intro expr rest next _ _ standsNext
  apply Follows.first standsNext.reaches_at_end (Nat.le_refl _)
  cases rest with
  | nil => exact .value expr standsNext
  | cons token rest =>
      rw [endStatement]
      by_cases isSemicolon : token.kind = .semicolon
      · rw [if_pos isSemicolon]
        exact .expected expr isSemicolon standsNext
      · rw [if_neg isSemicolon]
        exact .missing .semicolonExpected (by simpa using isSemicolon) standsNext

end ExprCompiler.Indexed
