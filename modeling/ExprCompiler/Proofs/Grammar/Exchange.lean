import ExprCompiler.Proofs.Grammar.Blame

/-!
Reading other tokens in place of some. A reader looks at the kinds of tokens and takes over the
values of literals; of everything else it only keeps the token. So where tokens are exchanged for
others of the same kinds and values, the same trees are read with the new tokens in them, and the
same errors are reported, at the new mark for the end if they were at the old one.
-/

namespace ExprCompiler

def Expr.exchange (word : Token → Token) : Expr → Expr
  | literal value => literal value
  | reference name => reference (word name)
  | grouping inner => grouping (inner.exchange word)
  | unary op right => unary (word op) (right.exchange word)
  | binary left op right => binary (left.exchange word) (word op) (right.exchange word)
  | logical left op right => logical (left.exchange word) (word op) (right.exchange word)
  | assign name value => assign (word name) (value.exchange word)
  | absent => absent

theorem Expr.exchange_id (expr : Expr) : expr.exchange id = expr := by
  induction expr with
  | _ => simp_all [exchange]

namespace Grammar

/-- Tokens that stand for others of the same kinds and values, and the mark that stands for the one
at the end. -/
structure Exchange where
  word : Token → Token
  mark : Token
  kind : ∀ token, (word token).kind = token.kind
  literal : ∀ token, (word token).literal = token.literal

namespace Exchange

variable (exchange : Exchange) {finish : Token}

def error (error : ParseError) : ParseError :=
  ⟨if error.token.kind = .eof then exchange.mark else exchange.word error.token, error.cause⟩

def reading : Reading → Reading
  | (.ok expr, rest) => (.ok (expr.exchange exchange.word), rest.map exchange.word)
  | (.error error, rest) => (.error (exchange.error error), rest.map exchange.word)

def parsed (parsed : Parsed) : Parsed :=
  ⟨parsed.statements.map (Expr.exchange exchange.word), parsed.errors.map exchange.error⟩

theorem error_at_end (isEnd : finish.kind = .eof) (cause : ParseCause) :
    exchange.error ⟨finish, cause⟩ = ⟨exchange.mark, cause⟩ := by
  rw [error, if_pos isEnd]

theorem error_at_word {token : Token} (noEnd : token.kind ≠ .eof) (cause : ParseCause) :
    exchange.error ⟨token, cause⟩ = ⟨exchange.word token, cause⟩ := by
  rw [error, if_neg noEnd]

theorem reading_and_then {reading : Reading} {next other : Expr → List Token → Reading}
    (same : ∀ expr rest, reading = (.ok expr, rest) →
      exchange.reading (next expr rest) =
        other (expr.exchange exchange.word) (rest.map exchange.word)) :
    exchange.reading (andThen reading next) = andThen (exchange.reading reading) other := by
  obtain ⟨result, rest⟩ := reading
  cases result with
  | ok expr => exact same expr rest rfl
  | error error => rfl

theorem takes_left (tier : Tier) (left : Expr) :
    tier.takesLeft (left.exchange exchange.word) = tier.takesLeft left := by
  cases tier with
  | assignment => cases left <;> rfl
  | _ => rfl

theorem node {tier : Tier} {left : Expr} (fits : tier.takesLeft left = true) (op : Token)
    (right : Expr) :
    (tier.node left op right).exchange exchange.word =
      tier.node (left.exchange exchange.word) (exchange.word op)
        (right.exchange exchange.word) := by
  cases tier with
  | assignment =>
      cases left with
      | reference name => rfl
      | _ => cases fits
  | _ => rfl

theorem constant_value (token : Token) :
    constantValue (exchange.word token) = constantValue token := by
  rw [constantValue, constantValue, exchange.kind, exchange.literal]

def Read (finish : Token) (tokens : List Token) : Prop :=
  ∀ tiers, (∀ token ∈ tokens, token.kind ≠ .eof) →
    (parseTiers exchange.mark tiers (tokens.map exchange.word)).outcome =
      exchange.reading (parseTiers finish tiers tokens).outcome

variable {exchange} {tokens : List Token} (isEnd : finish.kind = .eof)
  (noEnd : ∀ token ∈ tokens, token.kind ≠ .eof)
include isEnd noEnd

theorem close_group (inner : Expr) :
    exchange.reading (closeGroup finish inner tokens) =
      closeGroup exchange.mark (inner.exchange exchange.word) (tokens.map exchange.word) := by
  cases tokens with
  | nil =>
      rw [List.map_nil, closeGroup, closeGroup, reading, exchange.error_at_end isEnd]
      rfl
  | cons closing rest =>
      rw [List.map_cons, closeGroup, closeGroup, exchange.kind]
      split
      · rfl
      · rw [reading, exchange.error_at_word (noEnd closing (by simp))]
        rfl

theorem operand
    (shorter : ∀ fewer : List Token, fewer.length < tokens.length → exchange.Read finish fewer) :
    (parseOperand exchange.mark (tokens.map exchange.word)).outcome =
      exchange.reading (parseOperand finish tokens).outcome := by
  cases tokens with
  | nil =>
      rw [List.map_nil, parseOperand, parseOperand, ParseStep.outcome, ParseStep.outcome, reading,
        exchange.error_at_end isEnd]
      rfl
  | cons token after =>
      have noEndAfter : ∀ other ∈ after, other.kind ≠ .eof :=
        fun other member => noEnd other (List.mem_cons_of_mem token member)
      have readAfter (tiers : List Tier) := shorter after (by simp) tiers noEndAfter
      rw [List.map_cons, outcome_operand, outcome_operand, exchange.kind]
      split
      · have operand := readAfter []
        simp only [parseTiers] at operand
        rw [operand]
        symm
        apply exchange.reading_and_then
        intro right rest _
        rfl
      · split
        · rw [exchange.constant_value]
          rfl
        · split
          · rfl
          · split
            · rw [readAfter Tier.all]
              symm
              apply exchange.reading_and_then
              intro inner rest read
              apply close_group isEnd
              have left := rest_of_tiers read
              exact fun other member => noEndAfter other (left.subset member)
            · rw [reading, exchange.error_at_word (noEnd token (by simp))]
              rfl

omit isEnd in
theorem operators {tier : Tier} {tighter : List Tier} {bound : Nat}
    (shorter : ∀ fewer : List Token, fewer.length < bound → exchange.Read finish fewer)
    (left : Expr) (within : tokens.length ≤ bound) :
    (parseOperators exchange.mark tier tighter (left.exchange exchange.word)
        (tokens.map exchange.word)).outcome =
      exchange.reading (parseOperators finish tier tighter left tokens).outcome := by
  have isOperator' {op : Token} (isOperator : op.kind ∈ tier.operators) :
      (exchange.word op).kind ∈ tier.operators := by
    rw [exchange.kind]
    exact isOperator
  have fits' {left : Expr} (fits : tier.takesLeft left = true) :=
    (exchange.takes_left tier left).trans fits
  induction left, tokens using by_operators tier with
  | stops left tokens others =>
      have others' : ∀ op ∈ (tokens.map exchange.word).head?, op.kind ∉ tier.operators := by
        simpa [exchange.kind] using others
      rw [outcome_operators_other others, outcome_operators_other others']
      rfl
  | refused left op after isOperator fits =>
      have refused := (exchange.takes_left tier left).trans fits
      rw [List.map_cons, outcome_operators_refused isOperator fits,
        outcome_operators_refused (isOperator' isOperator) refused, reading,
        exchange.error_at_word (noEnd op (by simp))]
  | toRight left op after isOperator fits grouping =>
      rw [List.forall_mem_cons] at noEnd
      rw [List.length_cons] at within
      rw [List.map_cons, outcome_operators_to_right isOperator fits grouping,
        outcome_operators_to_right (isOperator' isOperator) (fits' fits) grouping,
        shorter after (by omega) _ noEnd.2]
      symm
      apply exchange.reading_and_then
      intro right rest _
      rw [reading, exchange.node fits]
  | toLeft left op after isOperator fits grouping goesOn =>
      rw [List.forall_mem_cons] at noEnd
      rw [List.length_cons] at within
      rw [List.map_cons, outcome_operators_to_left isOperator fits grouping,
        outcome_operators_to_left (isOperator' isOperator) (fits' fits) grouping,
        shorter after (by omega) _ noEnd.2]
      symm
      apply exchange.reading_and_then
      intro right rest read
      rw [← exchange.node fits]
      have isSuffix := rest_of_tiers read
      have less := isSuffix.length_le
      symm
      apply goesOn right rest less _ (by omega)
      exact fun other member => noEnd.2 other (isSuffix.subset member)

omit noEnd in
theorem read : exchange.Read finish tokens := by
  intro tiers noEnd
  induction tokens, tiers using by_tiers with
  | operand tokens shorter =>
      simp only [parseTiers]
      exact operand isEnd noEnd shorter
  | tier tokens tier tighter shorter tighterRead =>
      rw [outcome_tiers, outcome_tiers, tighterRead noEnd]
      symm
      apply exchange.reading_and_then
      intro left rest read
      have isSuffix := rest_of_tiers read
      symm
      apply operators _ shorter left isSuffix.length_le
      exact fun token member => noEnd token (isSuffix.subset member)

theorem statement :
    (parseStatement exchange.mark (tokens.map exchange.word)).outcome =
      exchange.reading (parseStatement finish tokens).outcome := by
  rw [outcome_parse_statement, outcome_parse_statement, read isEnd Tier.all noEnd]
  symm
  apply exchange.reading_and_then
  intro expr rest parsed
  have isSuffix := rest_of_tiers parsed
  cases rest with
  | nil => rfl
  | cons token rest =>
      rw [List.map_cons, endStatement, endStatement, exchange.kind]
      split
      · rfl
      · rw [reading, exchange.error_at_word (noEnd token (isSuffix.subset (by simp)))]
        rfl

omit isEnd noEnd in
theorem skip_past (previous : Token) :
    skipPast (exchange.word previous) (tokens.map exchange.word) =
      (skipPast previous tokens).map exchange.word := by
  induction tokens generalizing previous with
  | nil => rfl
  | cons token rest induction =>
      rw [List.map_cons, skipPast, skipPast, exchange.kind, exchange.kind]
      split
      · rfl
      · exact induction token

omit isEnd noEnd in
theorem synchronized :
    synchronize (tokens.map exchange.word) = (synchronize tokens).map exchange.word := by
  cases tokens with
  | nil => rfl
  | cons token rest => exact skip_past token

theorem statements :
    parseStatements exchange.mark (tokens.map exchange.word) =
      exchange.parsed (parseStatements finish tokens) := by
  revert noEnd
  apply @by_statements finish _ _ _ _ tokens
  · intro _
    rw [List.map_nil, parseStatements, parseStatements]
    rfl
  · intro tokens expr rest some read readRest noEnd
    have later := readRest fun token member => noEnd token ((rest_of_statement read).subset member)
    have moved := @statement exchange finish tokens isEnd noEnd
    rw [read, reading] at moved
    rw [statements_of_outcome some read, statements_of_outcome (by simpa using some) moved, later]
    rfl
  · intro tokens error rest some read readRest noEnd
    have inside := (synchronize_suffix rest).trans (rest_of_statement read)
    have later := readRest fun token member => noEnd token (inside.subset member)
    have moved := @statement exchange finish tokens isEnd noEnd
    rw [read, reading] at moved
    rw [statements_of_failure some read, statements_of_failure (by simpa using some) moved,
      synchronized, later]
    rfl

end Exchange

end Grammar

end ExprCompiler
