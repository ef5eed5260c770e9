import ExprCompiler.Proofs.Grammar.Viable

/-!
The first error of a program is as early as it can be. Each reader fails at the first token that no
phrase can have there: what it has read begins a phrase, and with that token behind it the same
failure comes whatever follows. Statements before the first error are whole, so the same holds of a
program.
-/

namespace ExprCompiler.Grammar

/-- The place of an error behind the tokens `front` of a list: the end of the list, or a token with
which all lists fail that begin alike. -/
def FailsAt (fails : Token → List Token → Prop) (finish : Token) (tokens front : List Token)
    (error : ParseError) : Prop :=
  (tokens = front ∧ error.token = finish) ∨
    ∃ behind, tokens = front ++ error.token :: behind ∧
      ∀ mark more, fails mark (front ++ error.token :: more)

/-- A failure behind some tokens `done` of a phrase: what is read up to its place begins a phrase of
the symbol. -/
def FailsEarly (symbol : Symbol) (done : List Token) (read : Token → List Token → Reading)
    (finish : Token) (tokens : List Token) (error : ParseError) : Prop :=
  ∃ front, Viable symbol (done ++ front) ∧
    FailsAt (fun mark tokens => ∃ rest, read mark tokens = (.error error, rest)) finish tokens front
      error

def Early (finish : Token) (symbol : Symbol) (tokens : List Token) : Prop :=
  ∀ error rest, (parseTiers finish symbol.tiers tokens).outcome = (.error error, rest) →
    FailsEarly symbol [] (fun mark tokens => (parseTiers mark symbol.tiers tokens).outcome) finish
      tokens error

/-- The same for all lists with fewer tokens, and for every symbol that is read with tiers. -/
def EarlyBelow (finish : Token) (bound : Nat) : Prop :=
  ∀ fewer : List Token, fewer.length < bound → ∀ symbol : Symbol, symbol ≠ .primary →
    Early finish symbol fewer

/-- A failure in the end is one of the first reading, or it comes behind the tree of that one. -/
theorem and_then_error {reading : Reading} {next : Expr → List Token → Reading}
    {error : ParseError} {rest : List Token}
    (failed : andThen reading next = (.error error, rest)) :
    reading = (.error error, rest) ∨
      ∃ first between, reading = (.ok first, between) ∧
        next first between = (.error error, rest) := by
  obtain ⟨result, between⟩ := reading
  cases result with
  | ok first => exact .inr ⟨first, between, rfl, failed⟩
  | error _ => exact .inl failed

variable {finish : Token} {tokens rest : List Token} {error : ParseError}

theorem FailsAt.behind {fails later : Token → List Token → Prop} {front : List Token}
    (place : FailsAt later finish tokens front error) (words : List Token)
    (carried : ∀ mark more, more.head? = tokens.head? → later mark more →
      fails mark (words ++ more)) :
    FailsAt fails finish (words ++ tokens) (words ++ front) error := by
  rcases place with ⟨rfl, isEnd⟩ | ⟨left, rfl, failsThere⟩
  · exact .inl ⟨rfl, isEnd⟩
  · refine .inr ⟨left, (List.append_assoc _ _ _).symm, ?_⟩
    intro mark more
    rw [List.append_assoc]
    exact carried mark _ (by cases front <;> rfl) (failsThere mark more)

namespace FailsEarly

variable {symbol inner : Symbol} {done after : List Token} {token : Token} {cause : ParseCause}
  {read later : Token → List Token → Reading}

theorem atEnd (viable : Viable symbol done) :
    FailsEarly symbol done read finish [] ⟨finish, cause⟩ :=
  ⟨[], by rwa [List.append_nil], .inl ⟨rfl, rfl⟩⟩

theorem here (viable : Viable symbol done)
    (fails : ∀ mark more, ∃ rest, read mark (token :: more) = (.error ⟨token, cause⟩, rest)) :
    FailsEarly symbol done read finish (token :: after) ⟨token, cause⟩ :=
  ⟨[], by rwa [List.append_nil], .inr ⟨after, rfl, fails⟩⟩

theorem behind (early : FailsEarly symbol (done ++ [token]) later finish tokens error)
    (same : ∀ mark more, read mark (token :: more) = later mark more) :
    FailsEarly symbol done read finish (token :: tokens) error := by
  obtain ⟨front, viable, place⟩ := early
  rw [List.append_assoc, List.singleton_append] at viable
  refine ⟨token :: front, viable, place.behind [token] ?_⟩
  intro mark more _ failed
  rw [List.singleton_append, same]
  exact failed

/-- A reading in two parts fails early if either part does. The first part is read again in front of
whatever begins like the tokens behind it, since one token decides where it ends. -/
theorem andThen (next : Token → Expr → List Token → Reading) (looser : inner ≠ .primary)
    (early : Early finish inner tokens)
    (begins : ∀ front, Viable inner front → Viable symbol (done ++ front))
    (goesOn : ∀ (phrase : Phrase inner) (between : List Token), phrase.tokens ++ between = tokens →
      next finish phrase.tree between = (.error error, rest) →
        FailsEarly symbol (done ++ phrase.tokens) (fun mark => next mark phrase.tree) finish between
          error)
    (failed : Grammar.andThen (parseTiers finish inner.tiers tokens).outcome (next finish) =
      (.error error, rest)) :
    FailsEarly symbol done
      (fun mark tokens => Grammar.andThen (parseTiers mark inner.tiers tokens).outcome (next mark))
      finish tokens error := by
  rcases and_then_error failed with failed | ⟨expr, between, parsed, failedBehind⟩
  · obtain ⟨front, viable, place⟩ := early error rest failed
    refine ⟨front, begins front viable, place.behind [] ?_⟩
    intro mark more _ failed
    obtain ⟨rest, failed⟩ := failed
    refine ⟨rest, ?_⟩
    dsimp only [List.nil_append] at failed ⊢
    rw [failed]
    rfl
  · obtain ⟨phrase, rfl, rfl, again⟩ := phrase_of_outcome looser parsed
    obtain ⟨front, viable, place⟩ := goesOn phrase between rfl failedBehind
    rw [List.append_assoc] at viable
    refine ⟨phrase.tokens ++ front, viable, place.behind phrase.tokens ?_⟩
    intro mark more sameHead failed
    dsimp only
    rw [again mark more sameHead]
    exact failed

end FailsEarly

theorem close_group_early {done : List Token} (inner : Phrase .assignment)
    (viable : Viable .unary done)
    (failed : closeGroup finish inner.tree tokens = (.error error, rest)) :
    FailsEarly .unary done (fun mark => closeGroup mark inner.tree) finish tokens error := by
  cases tokens with
  | nil =>
      cases failed
      exact .atEnd viable
  | cons closing after =>
      rw [closeGroup] at failed
      split at failed <;> cases failed
      rename_i notClosed
      apply FailsEarly.here viable
      intro mark more
      exact ⟨_, if_neg notClosed⟩

theorem operand_early
    (shorter : EarlyBelow finish tokens.length)
    (failed : (parseOperand finish tokens).outcome = (.error error, rest)) :
    FailsEarly .unary [] (fun mark tokens => (parseOperand mark tokens).outcome) finish tokens
      error := by
  have empty : Viable .unary [] := .nil (by decide)
  cases tokens with
  | nil =>
      rw [parseOperand] at failed
      cases failed
      exact .atEnd empty
  | cons token after =>
      have earlyAfter := shorter after (by simp)
      by_cases isSign : token.kind ∈ [TokenKind.not, .minus]
      · have same (mark : Token) (more : List Token) :
            (parseOperand mark (token :: more)).outcome =
              andThen (parseTiers mark Symbol.unary.tiers more).outcome fun right rest =>
                (.ok (.unary token right), rest) := by
          rw [outcome_operand, if_pos isSign, Symbol.tiers, parseTiers]
        rw [same] at failed
        apply FailsEarly.behind _ same
        apply FailsEarly.andThen _ (by decide) (earlyAfter _ (by decide)) _ _ failed
        · intro front viable
          exact viable.signed isSign
        · intro phrase between _ impossible
          cases impossible
      · by_cases isConstant : token.kind ∈ [TokenKind.number, .string, .trueWord, .falseWord]
        · rw [outcome_constant isConstant] at failed
          cases failed
        · by_cases isName : token.kind = .identifier
          · rw [outcome_reference isName] at failed
            cases failed
          · by_cases opens : token.kind = .leftParen
            · have same (mark : Token) (more : List Token) :
                  (parseOperand mark (token :: more)).outcome =
                    andThen (parseTiers mark Symbol.assignment.tiers more).outcome
                      (closeGroup mark) := by
                rw [outcome_operand, if_neg isSign, if_neg isConstant, if_neg isName, if_pos opens]
                rfl
              rw [same] at failed
              apply FailsEarly.behind _ same
              apply FailsEarly.andThen _ (by decide) (earlyAfter _ (by decide)) _ _ failed
              · intro front viable
                exact viable.group opens
              · intro inner between _ failed
                exact close_group_early inner ((Viable.phrase inner).group opens) failed
            · have same (mark : Token) (more : List Token) :
                  (parseOperand mark (token :: more)).outcome =
                    (.error ⟨token, .unexpectedExpression⟩, token :: more) := by
                rw [outcome_operand, if_neg isSign, if_neg isConstant, if_neg isName, if_neg opens]
              rw [same] at failed
              cases failed
              apply FailsEarly.here empty
              intro mark more
              exact ⟨_, same mark more⟩

theorem rounds_early {tier : Tier} (grouping : tier.groupsRight = false) {bound : Nat}
    (shorter : EarlyBelow finish bound)
    (before : Phrase (symbolOf tier)) (within : tokens.length ≤ bound)
    (failed :
      (parseOperators finish tier (symbolOf tier).operand.tiers before.tree tokens).outcome =
        (.error error, rest)) :
    FailsEarly (symbolOf tier) before.tokens
      (fun mark tokens =>
        (parseOperators mark tier (symbolOf tier).operand.tiers before.tree tokens).outcome)
      finish tokens error := by
  induction size : tokens.length using Nat.strongRecOn generalizing before tokens with
  | ind size earlier =>
      by_cases others : ∀ op ∈ tokens.head?, op.kind ∉ tier.operators
      · rw [outcome_operators_other others] at failed
        cases failed
      · cases tokens with
        | nil => exact absurd (fun _ member => nomatch member) others
        | cons op after =>
            have isOperator : op.kind ∈ tier.operators := by simpa using others
            have same (mark : Token) (more : List Token) :=
              @outcome_operators_to_left mark _ _ _ isOperator
                (takes_left_of_groups_left grouping before.tree) grouping
                (symbolOf tier).operand.tiers more
            rw [List.length_cons] at within size
            rw [same] at failed
            apply FailsEarly.behind _ same
            have earlyAfter := shorter after (by omega) _ (operand_ne_primary tier)
            apply FailsEarly.andThen _ (operand_ne_primary tier) earlyAfter _ _ failed
            · intro front viable
              rw [List.append_assoc, List.singleton_append]
              exact viable.to_the_left grouping before isOperator
            · intro last between words failed
              obtain ⟨longer, tree, longerWords⟩ :=
                extend_to_the_left grouping before op isOperator last
              have fewer : between.length ≤ after.length := by simp [← words]
              have later := earlier between.length (by omega) longer (by omega)
                (by rw [tree]; exact failed) rfl
              rw [tree, longerWords] at later
              rw [List.append_assoc, List.singleton_append]
              exact later

theorem right_side_early {tier : Tier} (grouping : tier.groupsRight = true) {bound : Nat}
    (shorter : EarlyBelow finish bound) (left : Phrase (symbolOf tier).operand)
    (within : tokens.length ≤ bound)
    (failed : (parseOperators finish tier (symbolOf tier).operand.tiers left.tree tokens).outcome =
      (.error error, rest)) :
    FailsEarly (symbolOf tier) left.tokens
      (fun mark tokens =>
        (parseOperators mark tier (symbolOf tier).operand.tiers left.tree tokens).outcome)
      finish tokens error := by
  by_cases others : ∀ op ∈ tokens.head?, op.kind ∉ tier.operators
  · rw [outcome_operators_other others] at failed
    cases failed
  · cases tokens with
    | nil => exact absurd (fun _ member => nomatch member) others
    | cons op after =>
        have isOperator : op.kind ∈ tier.operators := by simpa using others
        rw [List.length_cons] at within
        cases fits : tier.takesLeft left.tree with
        | false =>
            have same (mark : Token) (more : List Token) :=
              @outcome_operators_refused mark _ _ _ isOperator fits
                (symbolOf tier).operand.tiers more
            rw [same] at failed
            cases failed
            apply FailsEarly.here ((Viable.phrase left).single (symbol_of_ne_primary tier))
            intro mark more
            exact ⟨more, same mark more⟩
        | true =>
            have same (mark : Token) (more : List Token) :=
              @outcome_operators_to_right mark _ _ _ isOperator fits grouping
                (symbolOf tier).operand.tiers more
            simp only [← tiers_symbol_of] at same
            rw [same] at failed
            apply FailsEarly.behind _ same
            have earlyAfter := shorter after (by omega) _ (symbol_of_ne_primary tier)
            apply FailsEarly.andThen _ (symbol_of_ne_primary tier) earlyAfter _ _ failed
            · intro front viable
              rw [List.append_assoc, List.singleton_append]
              exact viable.to_the_right grouping left isOperator fits
            · intro right between _ impossible
              cases impossible

theorem tier_early (tier : Tier) (shorter : EarlyBelow finish tokens.length)
    (operandEarly : Early finish (symbolOf tier).operand tokens) :
    Early finish (symbolOf tier) tokens := by
  intro error rest failed
  simp only [tiers_symbol_of, outcome_tiers] at failed ⊢
  apply FailsEarly.andThen _ (operand_ne_primary tier) operandEarly _ _ failed
  · intro front viable
    exact viable.single (symbol_of_ne_primary tier)
  · intro operand between words failed
    have fewer : between.length ≤ tokens.length := by simp [← words]
    cases grouping : tier.groupsRight with
    | true => exact right_side_early grouping shorter operand fewer failed
    | false =>
        let before : Phrase (symbolOf tier) := .single operand (symbol_of_ne_primary tier)
        exact rounds_early grouping shorter before fewer failed

/-- No reader goes past a token at which its phrase cannot go on. -/
theorem early (tokens : List Token) (symbol : Symbol) (looser : symbol ≠ .primary) :
    Early finish symbol tokens := by
  induction size : tokens.length using Nat.strongRecOn generalizing tokens symbol with
  | ind size earlier =>
      have shorter : EarlyBelow finish tokens.length := by
        intro fewer less symbol looser
        exact earlier fewer.length (by omega) fewer symbol looser rfl
      refine @tightest_first (Early finish · tokens) ?_ ?_ symbol looser
      · intro error rest failed
        simp only [Symbol.tiers, parseTiers] at failed ⊢
        exact operand_early shorter failed
      · intro tier operandEarly
        exact tier_early tier shorter operandEarly

/-- A statement fails early as well: an expression may end at a semicolon or at the end only. -/
theorem statement_early (failed : (parseStatement finish tokens).outcome = (.error error, rest)) :
    FailsEarly .assignment [] (fun mark tokens => (parseStatement mark tokens).outcome) finish
      tokens error := by
  simp only [outcome_parse_statement] at failed ⊢
  apply FailsEarly.andThen (fun _ => endStatement) (by decide)
    (early tokens .assignment (by decide)) (fun _ viable => viable) _ failed
  intro phrase between _ failed
  cases between with
  | nil => cases failed
  | cons token after =>
      rw [endStatement] at failed
      split at failed <;> cases failed
      rename_i noSemicolon
      apply FailsEarly.here (Viable.phrase phrase)
      intro mark more
      exact ⟨_, if_neg noSemicolon⟩

/-- Statements in front of the first error are whole, and what is read behind them begins a further
one. -/
theorem statements_early {later : List ParseError}
    (failed : (parseStatements finish tokens).errors = error :: later) :
    ∃ front, (∃ statements : Statements, front <+: statements.words) ∧
      FailsAt (fun mark tokens => (parseStatements mark tokens).errors ≠ []) finish tokens front
        error := by
  induction size : tokens.length using Nat.strongRecOn generalizing tokens with
  | ind size earlier =>
      by_cases empty : tokens = []
      · rw [empty, parseStatements] at failed
        cases failed
      · rcases read : (parseStatement finish tokens).outcome with ⟨first | expr, rest⟩
        · rw [statements_of_failure empty read] at failed
          cases failed
          obtain ⟨front, ⟨phrase, begins⟩, place⟩ := statement_early read
          refine ⟨front, ⟨.last phrase (.endOfInput 0) rfl, begins⟩, place.behind [] ?_⟩
          intro mark more sameHead failed
          obtain ⟨rest, failed⟩ := failed
          have nonempty : more ≠ [] := by
            rintro rfl
            exact empty (List.head?_eq_none_iff.mp sameHead.symm)
          rw [List.nil_append, statements_of_failure nonempty failed]
          exact List.cons_ne_nil _ _
        · rw [statements_of_outcome empty read] at failed
          rcases statement_cases read with ⟨rfl, _⟩ | ⟨semicolon, isSemicolon, readExpr⟩
          · dsimp only at failed
            rw [parseStatements] at failed
            cases failed
          · obtain ⟨phrase, rfl, rfl, again⟩ :=
              @phrase_of_outcome _ .assignment _ _ _ (by decide) readExpr
            rw [List.length_append, List.length_cons] at size
            obtain ⟨front, ⟨statements, begins⟩, place⟩ :=
              earlier rest.length (by omega) failed rfl
            refine ⟨phrase.tokens ++ semicolon :: front,
              ⟨.next phrase semicolon statements isSemicolon, ?_⟩, ?_⟩
            · rw [Statements.words, List.prefix_append_right_inj]
              exact List.cons_prefix_cons.mpr ⟨rfl, begins⟩
            · rw [List.append_cons _ _ rest, List.append_cons _ _ front]
              apply place.behind
              intro mark more _ failed
              rw [← List.append_cons, statements_of_outcome (by simp)
                (outcome_statement isSemicolon (again mark (semicolon :: more) rfl))]
              exact failed

/-- Tokens that some list begins with which is read without an error. -/
def Completable (front : List Token) : Prop :=
  ∃ tokens, front <+: tokens ∧ (parse tokens).errors = []

theorem Completable.less {front fewer : List Token} (completable : Completable front)
    (begins : fewer <+: front) : Completable fewer := by
  obtain ⟨tokens, whole, clean⟩ := completable
  exact ⟨tokens, begins.trans whole, clean⟩

theorem completable_of_begins {front : List Token} {statements : Statements}
    (begins : front <+: statements.words) : Completable front := by
  have words := statements_tokens statements
  obtain ⟨noEnd, isEnd⟩ := statements_no_end statements
  refine ⟨statements.tokens, ?_, ?_⟩
  · rw [words]
    exact begins.trans (List.prefix_append _ _)
  · rw [words, parse, split_at_end _ noEnd isEnd]
    dsimp only
    rw [statements_complete]

/-- What begins a program and cannot go on with a token decides how much can be completed. -/
theorem completable_up_to {tokens front : List Token} {token : Token}
    (goesOn : Completable front) (stuck : ¬ Completable (front ++ [token]))
    (begins : front ++ [token] <+: tokens) (count : Nat) :
    Completable (tokens.take count) ↔ count ≤ front.length := by
  constructor
  · intro completable
    apply Nat.le_of_not_lt
    intro longer
    have reaches : (front ++ [token]).length ≤ count := by
      rw [List.length_append]
      exact longer
    exact stuck (completable.less (List.prefix_take_iff.mpr ⟨begins, reaches⟩))
  · intro within
    obtain ⟨behind, rfl⟩ := begins
    rw [List.append_assoc, List.take_append_of_le_length within]
    exact goesOn.less (List.take_prefix _ _)

/-- The first error of a program stands at the earliest token it could stand at. All in front of
that token begins some program without an error, and nothing that begins with that token included is
one. -/
theorem first_error_earliest (before : List Token) (finish : Token)
    (noEnd : ∀ token ∈ before, token.kind ≠ .eof) (isEnd : finish.kind = .eof)
    {error : ParseError} {later : List ParseError}
    (failed : (parse (before ++ [finish])).errors = error :: later) :
    ∃ index, (before ++ [finish])[index]? = some error.token ∧
      ∀ count, Completable ((before ++ [finish]).take count) ↔ count ≤ index := by
  have same : (parse (before ++ [finish])).errors = (parseStatements finish before).errors := by
    rw [parse, split_at_end before noEnd isEnd]
  rw [same] at failed
  obtain ⟨front, ⟨statements, goesOn⟩, place⟩ := statements_early failed
  obtain ⟨begins, stuck⟩ : front ++ [error.token] <+: before ++ [finish] ∧
      ¬ Completable (front ++ [error.token]) := by
    rcases place with ⟨rfl, isLast⟩ | ⟨behind, rfl, fails⟩
    · rw [isLast]
      refine ⟨List.prefix_rfl, ?_⟩
      rintro ⟨tokens, ⟨more, rfl⟩, clean⟩
      -- What comes behind the end mark is not read at all.
      rw [parse, List.append_assoc, split_at_end_append noEnd, List.singleton_append, splitAtEnd,
        if_pos isEnd, List.append_nil, failed] at clean
      cases clean
    · refine ⟨⟨behind ++ [finish], by simp⟩, ?_⟩
      rintro ⟨tokens, ⟨more, rfl⟩, clean⟩
      have noEndYet : ∀ token ∈ front ++ [error.token], token.kind ≠ .eof := by
        intro token member
        apply noEnd
        rw [← List.singleton_append, ← List.append_assoc]
        exact List.mem_append_left behind member
      rw [parse, split_at_end_append noEndYet, List.append_assoc] at clean
      exact fails _ _ clean
  refine ⟨front.length, ?_, completable_up_to (completable_of_begins goesOn) stuck begins⟩
  obtain ⟨behind, split⟩ := begins
  simp [← split]

def nameToken : Token := ⟨.identifier, utf8 "x", .absent, ⟨1, .empty⟩, .empty⟩

def assignToken : Token := ⟨.colonEqual, utf8 ":=", .absent, ⟨1, .empty⟩, .empty⟩

def misplacedAssignment : List Token :=
  [numberToken 9, minusToken, nameToken, assignToken, numberToken 3]

/-- In `9 - x := 3` no program has the assignment at its place, though `x := 3` is one. -/
theorem misplaced_assignment_earliest :
    ∃ index, (misplacedAssignment ++ [Token.endOfInput 1])[index]? = some assignToken ∧
      ∀ count,
        Completable ((misplacedAssignment ++ [Token.endOfInput 1]).take count) ↔ count ≤ index :=
  first_error_earliest misplacedAssignment (.endOfInput 1) (by decide) rfl
    (show (parse (misplacedAssignment ++ [.endOfInput 1])).errors =
      [⟨assignToken, .invalidAssignmentTarget⟩] by decide +kernel)

end ExprCompiler.Grammar
