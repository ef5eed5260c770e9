import ExprCompiler.Compile
import ExprCompiler.Proofs.Grammar.Program

/-!
What an error of a program is about. Whatever is read fails at a token that it was given, or at the
mark behind them all, and reading goes on with some of the last tokens; so every error of a program
names one of its tokens.
-/

namespace ExprCompiler.Grammar

variable {finish : Token} {tokens rest : List Token} {reading : Reading}

/-- A reading that leaves some of its last tokens and fails only at one of them or at the end. -/
structure Blames (finish : Token) (tokens : List Token) (reading : Reading) : Prop where
  left : reading.2 <:+ tokens
  named : ∀ error, reading.1 = .error error → error.token ∈ tokens ++ [finish]

namespace Blames

theorem parsed (expr : Expr) (isSuffix : rest <:+ tokens) : Blames finish tokens (.ok expr, rest) :=
  ⟨isSuffix, fun _ failed => nomatch failed⟩

theorem failed {error : ParseError} (named : error.token ∈ tokens ++ [finish])
    (isSuffix : rest <:+ tokens) : Blames finish tokens (.error error, rest) := by
  refine ⟨isSuffix, ?_⟩
  intro other same
  cases same
  exact named

theorem within (blames : Blames finish rest reading) (isSuffix : rest <:+ tokens) :
    Blames finish tokens reading := by
  refine ⟨blames.left.trans isSuffix, ?_⟩
  intro error failed
  rcases List.mem_append.mp (blames.named error failed) with inRest | isEnd
  · exact List.mem_append_left _ (isSuffix.subset inRest)
  · exact List.mem_append_right _ isEnd

theorem andThen {next : Expr → List Token → Reading} (first : Blames finish tokens reading)
    (later : ∀ expr left, left <:+ tokens → Blames finish left (next expr left)) :
    Blames finish tokens (Grammar.andThen reading next) := by
  obtain ⟨result, left⟩ := reading
  cases result with
  | ok expr => exact (later expr left first.left).within first.left
  | error error => exact first

end Blames

def Blamed (finish : Token) (tokens : List Token) : Prop :=
  ∀ tiers, Blames finish tokens (parseTiers finish tiers tokens).outcome

theorem close_group_blames (inner : Expr) (tokens : List Token) :
    Blames finish tokens (closeGroup finish inner tokens) := by
  cases tokens with
  | nil => exact .failed (by simp) (List.suffix_refl _)
  | cons closing rest =>
      rw [closeGroup]
      split
      · exact .parsed _ (List.suffix_cons closing rest)
      · exact .failed (by simp) (List.suffix_refl _)

theorem operand_blames
    (shorter : ∀ fewer : List Token, fewer.length < tokens.length → Blamed finish fewer) :
    Blames finish tokens (parseOperand finish tokens).outcome := by
  cases tokens with
  | nil =>
      rw [parseOperand]
      exact .failed (by simp) (List.suffix_refl _)
  | cons token after =>
      have blamedAfter := shorter after (by simp)
      have behind := List.suffix_cons token after
      rw [outcome_operand]
      split
      · have operand := blamedAfter []
        simp only [parseTiers] at operand
        apply Blames.within _ behind
        exact operand.andThen fun right left isSuffix => .parsed _ (List.suffix_refl left)
      · split
        · exact .parsed _ behind
        · split
          · exact .parsed _ behind
          · split
            · apply Blames.within _ behind
              exact (blamedAfter Tier.all).andThen fun inner left _ => close_group_blames inner left
            · exact .failed (by simp) (List.suffix_refl _)

theorem operators_blame {tier : Tier} {tighter : List Tier} {bound : Nat}
    (shorter : ∀ fewer : List Token, fewer.length < bound → Blamed finish fewer) (left : Expr)
    (within : tokens.length ≤ bound) :
    Blames finish tokens (parseOperators finish tier tighter left tokens).outcome := by
  induction left, tokens using by_operators tier with
  | stops left tokens others =>
      rw [outcome_operators_other others]
      exact .parsed left (List.suffix_refl _)
  | refused left op after isOperator fits =>
      rw [outcome_operators_refused isOperator fits]
      exact .failed (by simp) (List.suffix_cons op after)
  | toRight left op after isOperator fits grouping =>
      rw [List.length_cons] at within
      rw [outcome_operators_to_right isOperator fits grouping]
      apply Blames.within _ (List.suffix_cons op after)
      exact (shorter after (by omega) (tier :: tighter)).andThen fun right rest _ =>
        .parsed _ (List.suffix_refl rest)
  | toLeft left op after isOperator fits grouping goesOn =>
      rw [List.length_cons] at within
      rw [outcome_operators_to_left isOperator fits grouping]
      apply Blames.within _ (List.suffix_cons op after)
      apply (shorter after (by omega) tighter).andThen
      intro right rest isSuffix
      have less := isSuffix.length_le
      exact goesOn right rest less (by omega)

theorem blamed (finish : Token) (tokens : List Token) : Blamed finish tokens := by
  intro tiers
  induction tokens, tiers using by_tiers with
  | operand tokens shorter =>
      simp only [parseTiers]
      exact operand_blames shorter
  | tier tokens tier tighter shorter tighterBlames =>
      rw [outcome_tiers]
      apply tighterBlames.andThen
      intro left rest isSuffix
      exact operators_blame shorter left isSuffix.length_le

theorem statement_blames (tokens : List Token) :
    Blames finish tokens (parseStatement finish tokens).outcome := by
  rw [outcome_parse_statement]
  apply (blamed finish tokens Tier.all).andThen
  intro expr left isSuffix
  cases left with
  | nil => exact .parsed expr (List.suffix_refl _)
  | cons token rest =>
      rw [endStatement]
      split
      · exact .parsed expr (List.suffix_cons token rest)
      · exact .failed (by simp) (List.suffix_refl _)

theorem skip_past_suffix (previous : Token) (tokens : List Token) :
    skipPast previous tokens <:+ tokens := by
  induction tokens generalizing previous with
  | nil => exact List.suffix_refl _
  | cons token rest induction =>
      rw [skipPast]
      split
      · exact List.suffix_refl _
      · exact (induction token).trans (List.suffix_cons token rest)

theorem synchronize_suffix (tokens : List Token) : synchronize tokens <:+ tokens := by
  cases tokens with
  | nil => exact List.suffix_refl _
  | cons token rest => exact (skip_past_suffix token rest).trans (List.suffix_cons token rest)

theorem rest_of_tiers {tiers : List Tier} {result : Except ParseError Expr}
    (read : (parseTiers finish tiers tokens).outcome = (result, rest)) : rest <:+ tokens := by
  have left := (blamed finish tokens tiers).left
  rwa [read] at left

theorem rest_of_statement {result : Except ParseError Expr}
    (read : (parseStatement finish tokens).outcome = (result, rest)) : rest <:+ tokens := by
  have left := (@statement_blames finish tokens).left
  rwa [read] at left

theorem statement_shorter {expr : Expr}
    (read : (parseStatement finish tokens).outcome = (.ok expr, rest)) :
    rest.length < tokens.length := by
  cases step : parseStatement finish tokens with
  | parsed other left shorter =>
      rw [step] at read
      cases read
      exact shorter
  | failed error left bounded =>
      rw [step] at read
      cases read

/-- Statements are read step by step. What holds of no tokens, and holds of some if it holds of
those left behind a statement or behind the recovery from an error, holds of all. -/
theorem by_statements {motive : List Token → Prop} (done : motive [])
    (parsed : ∀ tokens expr rest, tokens ≠ [] →
      (parseStatement finish tokens).outcome = (.ok expr, rest) → motive rest → motive tokens)
    (failed : ∀ tokens error rest, tokens ≠ [] →
      (parseStatement finish tokens).outcome = (.error error, rest) → motive (synchronize rest) →
        motive tokens) (tokens : List Token) : motive tokens := by
  induction size : tokens.length using Nat.strongRecOn generalizing tokens with
  | ind size earlier =>
      by_cases empty : tokens = []
      · rw [empty]
        exact done
      · rcases read : (parseStatement finish tokens).outcome with ⟨error | expr, rest⟩
        · apply failed tokens error rest empty read
          apply earlier _ _ _ rfl
          have some := List.length_pos_iff.mpr empty
          have less := (rest_of_statement read).length_le
          have fewer := synchronize_length_le rest
          omega
        · apply parsed tokens expr rest empty read
          apply earlier _ _ _ rfl
          rw [← size]
          exact statement_shorter read

theorem statements_blame (tokens : List Token) :
    ∀ error ∈ (parseStatements finish tokens).errors, error.token ∈ tokens ++ [finish] := by
  -- What is read next is an end of the tokens, so what it names is among them.
  have later {tokens rest : List Token} (isSuffix : rest <:+ tokens) {token : Token}
      (member : token ∈ rest ++ [finish]) : token ∈ tokens ++ [finish] := by
    rcases List.mem_append.mp member with inRest | isEnd
    · exact List.mem_append_left _ (isSuffix.subset inRest)
    · exact List.mem_append_right _ isEnd
  apply @by_statements finish _ _ _ _ tokens
  · rw [parseStatements]
    intro error member
    cases member
  · intro tokens expr rest some read inRest error member
    rw [statements_of_outcome some read] at member
    exact later (rest_of_statement read) (inRest error member)
  · intro tokens error rest some read inRest other member
    have blames := @statement_blames finish tokens
    rw [read] at blames
    rw [statements_of_failure some read] at member
    rcases List.mem_cons.mp member with rfl | behind
    · exact blames.named other rfl
    · exact later ((synchronize_suffix rest).trans blames.left) (inRest other behind)

/-- Every error of a program names one of its tokens. -/
theorem parse_blames (before : List Token) (noEnd : ∀ token ∈ before, token.kind ≠ .eof)
    (isEnd : finish.kind = .eof) :
    ∀ error ∈ (parse (before ++ [finish])).errors, error.token ∈ before ++ [finish] := by
  rw [parse_before_end noEnd isEnd]
  exact statements_blame before

theorem second_start_mem {tokens : List Token} {found : Token}
    (second : secondStatementStart? tokens = some found) : found ∈ tokens := by
  fun_induction secondStatementStart? tokens with
  | case1 => cases second
  | case2 => cases second
  | case3 token next rest _ =>
      cases second
      simp
  | case4 token next rest _ induction => exact List.mem_cons_of_mem _ (induction second)

theorem last_token_mem {tokens : List Token} (nonempty : tokens ≠ []) :
    lastToken tokens ∈ tokens := by
  rw [lastToken, List.getLast?_eq_some_getLast nonempty]
  exact List.getLast_mem nonempty

theorem single_expression_blames {statements : List Expr} {error : ParseError}
    (nonempty : tokens ≠ []) (single : singleExpression tokens statements = .error error) :
    error.token ∈ tokens := by
  unfold singleExpression at single
  split at single
  · cases single
    exact last_token_mem nonempty
  · cases single
  · cases single
    cases second : secondStatementStart? tokens with
    | none => exact last_token_mem nonempty
    | some found => exact second_start_mem second

end ExprCompiler.Grammar
