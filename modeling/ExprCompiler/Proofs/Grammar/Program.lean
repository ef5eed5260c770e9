import ExprCompiler.Proofs.Grammar.Completeness

/-!
Whole programs. A list of tokens that ends with the only end mark in it is read without an error
exactly when the grammar derives it, and then there is one derivation, whose trees are the
statements that were read.
-/

namespace ExprCompiler.Grammar

variable {finish : Token}

/-- The first end mark of some tokens stands behind those in front that are none. -/
theorem split_at_end_append {before : List Token}
    (noEnd : ∀ token ∈ before, token.kind ≠ .eof) (more : List Token) :
    splitAtEnd (before ++ more) = (before ++ (splitAtEnd more).1, (splitAtEnd more).2) := by
  induction before with
  | nil => rfl
  | cons token before induction =>
      have here : token.kind ≠ .eof := noEnd token (by simp)
      have later := induction fun other member => noEnd other (by simp [member])
      simp [splitAtEnd, here, later]

theorem split_at_end (before : List Token) (noEnd : ∀ token ∈ before, token.kind ≠ .eof)
    (isEnd : finish.kind = .eof) : splitAtEnd (before ++ [finish]) = (before, finish) := by
  rw [split_at_end_append noEnd, splitAtEnd, if_pos isEnd, List.append_nil]

def words (tokens : List Token) : List Token := tokens.takeWhile (·.kind ≠ .eof)

/-- The first mark for an end, or one on line zero where there is none. -/
def endMark (tokens : List Token) : Token :=
  (tokens.dropWhile (·.kind ≠ .eof)).headD (.endOfInput 0)

theorem words_no_end (tokens : List Token) : ∀ token ∈ words tokens, token.kind ≠ .eof := by
  intro token member
  simpa using List.all_eq_true.mp List.all_takeWhile token member

theorem end_mark_is_end (tokens : List Token) : (endMark tokens).kind = .eof := by
  have stops := List.head?_dropWhile_not (·.kind ≠ TokenKind.eof) tokens
  rw [endMark]
  cases behind : tokens.dropWhile (·.kind ≠ .eof) with
  | nil => rfl
  | cons mark others =>
      rw [behind] at stops
      simpa using stops

theorem split_at_end_words (tokens : List Token) :
    splitAtEnd tokens = (words tokens, endMark tokens) := by
  induction tokens with
  | nil => rfl
  | cons token rest induction =>
      rw [splitAtEnd, induction, words, words, endMark, endMark, List.takeWhile_cons,
        List.dropWhile_cons]
      by_cases isEnd : token.kind = .eof <;> simp [isEnd]

theorem parse_words (tokens : List Token) :
    parse tokens = parseStatements (endMark tokens) (words tokens) := by
  rw [parse, split_at_end_words]

theorem parse_before_end {before : List Token} (noEnd : ∀ token ∈ before, token.kind ≠ .eof)
    (isEnd : finish.kind = .eof) : parse (before ++ [finish]) = parseStatements finish before := by
  rw [parse, split_at_end before noEnd isEnd]

def endStatement (expr : Expr) : List Token → Reading
  | [] => (.ok expr, [])
  | token :: rest =>
      if token.kind = .semicolon then (.ok expr, rest)
      else (.error ⟨token, .semicolonExpected⟩, token :: rest)

theorem outcome_parse_statement (tokens : List Token) :
    (parseStatement finish tokens).outcome =
      andThen (parseTiers finish Tier.all tokens).outcome endStatement := by
  unfold parseStatement
  split <;> rename_i step <;> rw [step]
  · rfl
  · rfl
  · simp only [andThen, ParseStep.outcome, endStatement]
    split <;> rename_i isEnd <;> split at isEnd <;> cases isEnd
    · rw [if_pos ‹_›]
    · rw [if_neg ‹_›]

theorem outcome_statement_last {tokens : List Token} {expr : Expr}
    (read : (parseTiers finish Tier.all tokens).outcome = (.ok expr, [])) :
    (parseStatement finish tokens).outcome = (.ok expr, []) := by
  rw [outcome_parse_statement, read]
  rfl

theorem outcome_statement {tokens rest : List Token} {expr : Expr} {semicolon : Token}
    (isSemicolon : semicolon.kind = .semicolon)
    (read : (parseTiers finish Tier.all tokens).outcome = (.ok expr, semicolon :: rest)) :
    (parseStatement finish tokens).outcome = (.ok expr, rest) := by
  rw [outcome_parse_statement, read]
  exact if_pos isSemicolon

theorem statement_cases {tokens rest : List Token} {expr : Expr}
    (read : (parseStatement finish tokens).outcome = (.ok expr, rest)) :
    (rest = [] ∧ (parseTiers finish Tier.all tokens).outcome = (.ok expr, [])) ∨
      ∃ semicolon, semicolon.kind = .semicolon ∧
        (parseTiers finish Tier.all tokens).outcome = (.ok expr, semicolon :: rest) := by
  rw [outcome_parse_statement] at read
  obtain ⟨tree, left, readExpr, ended⟩ := and_then_ok read
  cases left with
  | nil =>
      cases ended
      exact .inl ⟨rfl, readExpr⟩
  | cons token after =>
      rw [endStatement] at ended
      split at ended <;> cases ended
      exact .inr ⟨token, ‹_›, readExpr⟩

theorem statements_of_outcome {tokens rest : List Token} {expr : Expr} (some : tokens ≠ [])
    (read : (parseStatement finish tokens).outcome = (.ok expr, rest)) :
    parseStatements finish tokens =
      ⟨expr :: (parseStatements finish rest).statements, (parseStatements finish rest).errors⟩ := by
  cases tokens with
  | nil => contradiction
  | cons token after =>
      rw [parseStatements]
      split <;> rename_i step <;> rw [step] at read <;> cases read
      rfl

theorem statements_of_failure {tokens rest : List Token} {error : ParseError} (some : tokens ≠ [])
    (read : (parseStatement finish tokens).outcome = (.error error, rest)) :
    parseStatements finish tokens =
      ⟨(parseStatements finish (synchronize rest)).statements,
        error :: (parseStatements finish (synchronize rest)).errors⟩ := by
  cases tokens with
  | nil => contradiction
  | cons token after =>
      rw [parseStatements]
      split <;> rename_i step <;> rw [step] at read <;> cases read
      rfl

/-- Without an error, the first statement is read and so are the rest. -/
theorem outcome_of_statements {token : Token} {after : List Token} {statements : List Expr}
    (read : parseStatements finish (token :: after) = ⟨statements, []⟩) :
    ∃ expr rest later, (parseStatement finish (token :: after)).outcome = (.ok expr, rest) ∧
      rest.length < (token :: after).length ∧ parseStatements finish rest = ⟨later, []⟩ ∧
      statements = expr :: later := by
  rw [parseStatements] at read
  split at read
  · rename_i expr rest shorter step
    simp only [Parsed.mk.injEq] at read
    refine ⟨expr, rest, (parseStatements finish rest).statements, by rw [step]; rfl, shorter, ?_,
      read.1.symm⟩
    rw [← read.2]
  · simp at read

def Statements.words : Statements → List Token
  | done _ _ => []
  | last expr _ _ => expr.tokens
  | next expr semicolon rest _ => expr.tokens ++ semicolon :: rest.words

def Statements.mark : Statements → Token
  | done finish _ => finish
  | last _ finish _ => finish
  | next _ _ rest _ => rest.mark

theorem statements_tokens (statements : Statements) :
    statements.tokens = statements.words ++ [statements.mark] := by
  induction statements with
  | done => rfl
  | last => rfl
  | next expr semicolon rest isSemicolon restTokens =>
      simp [Statements.tokens, Statements.words, Statements.mark, restTokens]

theorem statements_complete (statements : Statements) :
    parseStatements finish statements.words = ⟨statements.trees, []⟩ := by
  induction statements with
  | done mark isEnd =>
      rw [Statements.words, parseStatements]
      rfl
  | last expr mark isEnd =>
      have read := @complete finish _ expr [] (stops_nil _)
      rw [List.append_nil] at read
      rw [Statements.words, statements_of_outcome (phrase_tokens_ne_nil expr)
        (outcome_statement_last read), parseStatements]
      rfl
  | next expr semicolon rest isSemicolon restComplete =>
      have looser : operatorRank semicolon.kind < Symbol.assignment.rank := by
        rw [isSemicolon]
        decide
      have read := @complete finish _ expr (semicolon :: rest.words) (stops_cons _ looser)
      rw [Statements.words, statements_of_outcome (by simp) (outcome_statement isSemicolon read),
        restComplete]
      rfl

theorem statements_sound (isEnd : finish.kind = .eof) (before : List Token) (trees : List Expr)
    (read : parseStatements finish before = ⟨trees, []⟩) :
    ∃ statements : Statements, statements.tokens = before ++ [finish] ∧
      statements.trees = trees := by
  induction size : before.length using Nat.strongRecOn generalizing before trees with
  | ind size earlier =>
      cases before with
      | nil =>
          rw [parseStatements] at read
          cases read
          exact ⟨.done finish isEnd, rfl, rfl⟩
      | cons token after =>
          obtain ⟨expr, rest, later, readFirst, shorter, readLater, rfl⟩ :=
            outcome_of_statements read
          rcases statement_cases readFirst with ⟨rfl, readExpr⟩ | ⟨semicolon, isSemicolon, readExpr⟩
          · obtain ⟨phrase, rfl, words⟩ :=
              sound (token :: after) .assignment (by simp) expr [] readExpr
            rw [parseStatements] at readLater
            cases readLater
            rw [List.append_nil] at words
            refine ⟨.last phrase finish isEnd, ?_, rfl⟩
            rw [Statements.tokens, words]
          · obtain ⟨phrase, rfl, words⟩ :=
              sound (token :: after) .assignment (by simp) expr (semicolon :: rest) readExpr
            obtain ⟨statements, restWords, rfl⟩ :=
              earlier rest.length (by omega) rest later readLater rfl
            refine ⟨.next phrase semicolon statements isSemicolon, ?_, rfl⟩
            rw [Statements.tokens, restWords, ← words, List.append_assoc, List.cons_append]

theorem stops_before_end {mark : Token} (isEnd : mark.kind = .eof) : Stops .assignment [mark] := by
  apply stops_cons []
  rw [isEnd]
  decide

theorem stops_before_semicolon {semicolon : Token} (isSemicolon : semicolon.kind = .semicolon)
    (rest : List Token) : Stops .assignment (semicolon :: rest) := by
  apply stops_cons rest
  rw [isSemicolon]
  decide

/-- What ends a statement is in no phrase. -/
theorem phrase_inside_statement {symbol : Symbol} (phrase : Phrase symbol) :
    ∀ token ∈ phrase.tokens, token.kind ∉ [TokenKind.eof, .semicolon] := by
  -- The words of a phrase are taken from classes that the two kinds are in none of.
  have apart {token : Token} {kinds : List TokenKind} (isOne : token.kind ∈ kinds)
      (absent : ∀ kind ∈ kinds, kind ∉ [TokenKind.eof, .semicolon]) :
      token.kind ∉ [TokenKind.eof, .semicolon] := absent token.kind isOne
  induction phrase with
  | assign name op value isName isOperator valueInside =>
      simp only [Phrase.tokens, List.forall_mem_cons]
      exact ⟨by simp [isName], by simp [isOperator], valueInside⟩
  | single operand _ operandInside => exact operandInside
  | @round symbol before op last isOperator beforeInside lastInside =>
      simp only [Phrase.tokens, List.forall_mem_append, List.forall_mem_cons]
      exact ⟨beforeInside, apart isOperator (by cases symbol <;> decide), lastInside⟩
  | imply left op right isOperator leftInside rightInside =>
      simp only [Phrase.tokens, List.forall_mem_append, List.forall_mem_cons]
      exact ⟨leftInside, apart isOperator (by decide), rightInside⟩
  | signed op operand isOperator operandInside =>
      simp only [Phrase.tokens, List.forall_mem_cons]
      exact ⟨apart isOperator (by decide), operandInside⟩
  | constant token isConstant =>
      simp only [Phrase.tokens, List.forall_mem_singleton]
      exact apart isConstant (by decide)
  | reference token isName => simp [Phrase.tokens, isName]
  | group opening inner closing opens closes innerInside =>
      simp only [Phrase.tokens, List.forall_mem_append, List.forall_mem_cons]
      exact ⟨by simp [opens], innerInside, by simp [closes]⟩

theorem phrase_no_end {symbol : Symbol} (phrase : Phrase symbol) :
    ∀ token ∈ phrase.tokens, token.kind ≠ .eof := by
  intro token member isEnd
  apply phrase_inside_statement phrase token member
  simp [isEnd]

theorem statements_no_end (statements : Statements) :
    (∀ token ∈ statements.words, token.kind ≠ .eof) ∧ statements.mark.kind = .eof := by
  induction statements with
  | done mark isEnd => exact ⟨(fun _ member => nomatch member), isEnd⟩
  | last expr mark isEnd => exact ⟨phrase_no_end expr, isEnd⟩
  | next expr semicolon rest isSemicolon restNoEnd =>
      simp only [Statements.words, List.forall_mem_append, List.forall_mem_cons]
      exact ⟨⟨phrase_no_end expr, by simp [isSemicolon], restNoEnd.1⟩, restNoEnd.2⟩

theorem phrase_before_end {symbol : Symbol} (phrase : Phrase symbol) (rest : List Token)
    {mark : Token} (isEnd : mark.kind = .eof) : phrase.tokens ++ rest ≠ [mark] := by
  intro same
  obtain ⟨first, later, words⟩ := List.exists_cons_of_ne_nil (phrase_tokens_ne_nil phrase)
  have noEnd := phrase_no_end phrase first (by simp [words])
  rw [words, List.cons_append, List.cons.injEq] at same
  rw [same.1] at noEnd
  exact noEnd isEnd

theorem statements_unique (statements other : Statements)
    (same : statements.tokens = other.tokens) : statements = other := by
  induction statements generalizing other with
  | done mark isEnd =>
      cases other with
      | done mark' isEnd' =>
          cases same
          rfl
      | last expr mark' isEnd' => exact absurd same.symm (phrase_before_end expr _ isEnd)
      | next expr semicolon rest _ => exact absurd same.symm (phrase_before_end expr _ isEnd)
  | last expr mark isEnd =>
      cases other with
      | done mark' isEnd' => exact absurd same (phrase_before_end expr _ isEnd')
      | last expr' mark' isEnd' =>
          obtain ⟨rfl, sameEnd⟩ :=
            phrase_unique expr expr' (stops_before_end isEnd) (stops_before_end isEnd') same
          cases sameEnd
          rfl
      | next expr' semicolon rest isSemicolon =>
          obtain ⟨rfl, sameEnd⟩ := phrase_unique expr expr' (stops_before_end isEnd)
            (stops_before_semicolon isSemicolon _) same
          rw [← (List.cons.inj sameEnd).1, isEnd] at isSemicolon
          cases isSemicolon
  | next expr semicolon rest isSemicolon restUnique =>
      cases other with
      | done mark isEnd => exact absurd same (phrase_before_end expr _ isEnd)
      | last expr' mark isEnd =>
          obtain ⟨rfl, sameEnd⟩ := phrase_unique expr expr' (stops_before_semicolon isSemicolon _)
            (stops_before_end isEnd) same
          rw [(List.cons.inj sameEnd).1, isEnd] at isSemicolon
          cases isSemicolon
      | next expr' semicolon' rest' isSemicolon' =>
          obtain ⟨rfl, sameRest⟩ := phrase_unique expr expr'
            (stops_before_semicolon isSemicolon _) (stops_before_semicolon isSemicolon' _) same
          simp only [List.cons.injEq] at sameRest
          obtain ⟨rfl, sameTokens⟩ := sameRest
          rw [restUnique rest' sameTokens]

/-- A list of tokens that ends with its only end mark is read without an error exactly when the
grammar derives it. It has one derivation then, and what is read are its trees. -/
theorem parse_iff_derived (before : List Token) (finish : Token)
    (noEnd : ∀ token ∈ before, token.kind ≠ .eof) (isEnd : finish.kind = .eof)
    (trees : List Expr) :
    (parse (before ++ [finish]) = ⟨trees, []⟩ ↔
      ∃ statements : Statements,
        statements.tokens = before ++ [finish] ∧ statements.trees = trees) ∧
    ∀ statements other : Statements, statements.tokens = before ++ [finish] →
      other.tokens = before ++ [finish] → statements = other := by
  rw [parse_before_end noEnd isEnd]
  refine ⟨⟨statements_sound isEnd before trees, ?_⟩, ?_⟩
  · rintro ⟨statements, words, rfl⟩
    rw [statements_tokens] at words
    rw [← List.append_inj_left' words rfl]
    exact statements_complete statements
  · intro statements other words otherWords
    exact statements_unique statements other (words.trans otherWords.symm)

def numberToken (value : Word) : Token := ⟨.number, value.text, .int value, ⟨1, .empty⟩, .empty⟩

def minusToken : Token := ⟨.minus, utf8 "-", .absent, ⟨1, .empty⟩, .empty⟩

def numberPhrase (value : Word) : Phrase .multiplicative :=
  .single (.single (.constant (numberToken value) (by simp [numberToken])) (by decide)) (by decide)

/-- The derivation of `9 - 3 - 2`, which groups to the left. -/
def differencePhrase : Phrase .additive :=
  .round (.round (.single (numberPhrase 9) (by decide)) minusToken (numberPhrase 3) (by decide))
    minusToken (numberPhrase 2) (by decide)

def differenceStatements : Statements :=
  .last (.single (.single (.single (.single (.single (.single (.single differencePhrase
    (by decide)) (by decide)) (by decide)) (by decide)) (by decide)) (by decide)) (by decide))
    (.endOfInput 1) rfl

theorem parse_differences :
    parse ([numberToken 9, minusToken, numberToken 3, minusToken, numberToken 2] ++
        [.endOfInput 1]) =
      ⟨[.binary (.binary (.literal (.int 9)) minusToken (.literal (.int 3))) minusToken
        (.literal (.int 2))], []⟩ :=
  (parse_iff_derived _ (.endOfInput 1) (by simp [numberToken, minusToken]) rfl _).1.mpr
    ⟨differenceStatements, rfl, rfl⟩

end ExprCompiler.Grammar
