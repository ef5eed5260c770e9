import ExprCompiler.Compile
import ExprCompiler.Proofs.Grammar.Program
import ExprCompiler.Proofs.Token.LongestMatch

/-!
The start of the second statement. It is looked for behind the first semicolon of a source, without
regard to the grammar. That finds the first token of the second expression, since no expression
holds a semicolon and every statement but the last one ends with one.
-/

namespace ExprCompiler

namespace Grammar

def Statements.phrases : Statements → List (Phrase .assignment)
  | done _ _ => []
  | last expr _ _ => [expr]
  | next expr _ rest _ => expr :: rest.phrases

theorem statements_trees (statements : Statements) :
    statements.trees = statements.phrases.map Phrase.tree := by
  induction statements with
  | done => rfl
  | last => rfl
  | next expr semicolon rest isSemicolon restTrees =>
      rw [Statements.trees, Statements.phrases, List.map_cons, restTrees]

theorem statements_start {statements : Statements} {expr : Phrase .assignment}
    {others : List (Phrase .assignment)} (first : statements.phrases = expr :: others) :
    ∃ rest, statements.tokens = expr.tokens ++ rest := by
  cases statements with
  | done => cases first
  | last expr finish isEnd =>
      obtain ⟨rfl, _⟩ := List.cons.inj first
      exact ⟨[finish], rfl⟩
  | next expr semicolon rest isSemicolon =>
      obtain ⟨rfl, _⟩ := List.cons.inj first
      exact ⟨semicolon :: rest.tokens, rfl⟩

theorem second_start_behind {front : List Token}
    (noSemicolon : ∀ token ∈ front, token.kind ≠ .semicolon) {semicolon : Token}
    (isSemicolon : semicolon.kind = .semicolon) (start : Token) (rest : List Token) :
    secondStatementStart? (front ++ semicolon :: start :: rest) = some start := by
  induction front with
  | nil =>
      rw [List.nil_append, secondStatementStart?]
      exact if_pos isSemicolon
  | cons token front induction =>
      have later := induction fun other member => noSemicolon other (by simp [member])
      obtain ⟨next, others, split⟩ := List.exists_cons_of_ne_nil
        (List.append_ne_nil_of_right_ne_nil front (List.cons_ne_nil semicolon (start :: rest)))
      rw [split] at later
      rw [List.cons_append, split, secondStatementStart?, if_neg (noSemicolon token (by simp))]
      exact later

/-- The first token behind the first semicolon starts the second expression. -/
theorem second_start_of_statements {statements : Statements} {first second : Phrase .assignment}
    {others : List (Phrase .assignment)} (several : statements.phrases = first :: second :: others)
    {start : Token} (starts : start ∈ second.tokens.head?) :
    secondStatementStart? statements.tokens = some start := by
  cases statements with
  | done => cases several
  | last => cases several
  | next expr semicolon rest isSemicolon =>
      obtain ⟨rfl, further⟩ := List.cons.inj several
      obtain ⟨behind, words⟩ := statements_start further
      obtain ⟨later, split⟩ := List.head?_eq_some_iff.mp starts
      rw [Statements.tokens, words, split]
      apply second_start_behind _ isSemicolon
      intro token member isOther
      apply phrase_inside_statement expr token member
      simp [isOther]

end Grammar

section Compile

variable {options : CompileOptions} {source : Bytes}

theorem derived_of_source (parsed : (parse (lex source).tokens).errors = []) :
    ∃ program : Grammar.Statements, program.tokens = (lex source).tokens ∧
      program.trees = (parse (lex source).tokens).statements := by
  obtain ⟨words, finish, tokens, isEnd, noEnd⟩ := lex_words source
  have whole := Grammar.parse_before_end noEnd isEnd
  rw [tokens, whole] at parsed ⊢
  apply Grammar.statements_sound isEnd words
  rw [← parsed]

theorem single_expression_several {tokens : List Token} (first second : Expr)
    (others : List Expr) : singleExpression tokens (first :: second :: others) =
      .error ⟨(secondStatementStart? tokens).getD (lastToken tokens), .trailingInput⟩ := rfl

theorem compile_failed_of_single {problem : ParseError} (lexed : (lex source).errors = [])
    (parsed : (parse (lex source).tokens).errors = [])
    (single : singleExpression (lex source).tokens (parse (lex source).tokens).statements =
      .error problem) : compile options source = .error (.parse [problem]) := by
  simp [compile, compileLogged, lexed, parsed, single]

/-- A source of several statements fails with one error, at the first token of the second
expression. -/
theorem trailing_input_at_second (options : CompileOptions) (source : Bytes)
    (lexed : (lex source).errors = []) (parsed : (parse (lex source).tokens).errors = [])
    (several : 2 ≤ (parse (lex source).tokens).statements.length) :
    ∃ (program : Grammar.Statements) (first second : Grammar.Phrase .assignment)
      (others : List (Grammar.Phrase .assignment)) (start : Token),
      program.tokens = (lex source).tokens ∧
        program.trees = (parse (lex source).tokens).statements ∧
        program.phrases = first :: second :: others ∧ second.tokens.head? = some start ∧
        start.kind ≠ .eof ∧
        compile options source = .error (.parse [⟨start, .trailingInput⟩]) := by
  obtain ⟨program, tokens, trees⟩ := derived_of_source parsed
  have statements := trees.symm.trans (Grammar.statements_trees program)
  rw [statements, List.length_map] at several
  obtain ⟨first, second, others, phrases⟩ : ∃ first second others,
      program.phrases = first :: second :: others := by
    match program.phrases, several with
    | first :: second :: others, _ => exact ⟨first, second, others, rfl⟩
  obtain ⟨start, later, split⟩ :=
    List.exists_cons_of_ne_nil (Grammar.phrase_tokens_ne_nil second)
  have starts : second.tokens.head? = some start := by rw [split, List.head?_cons]
  have found := Grammar.second_start_of_statements phrases starts
  refine ⟨program, first, second, others, start, tokens, trees, phrases, starts, ?_, ?_⟩
  · apply Grammar.phrase_no_end second
    simp [split]
  · apply compile_failed_of_single lexed parsed
    rw [statements, phrases, List.map_cons, List.map_cons, single_expression_several, ← tokens,
      found]
    rfl

def parseErrors : Except CompileError Output → List ParseError
  | .error (.parse errors) => errors
  | _ => []

/-- In `x; y*2;` the second expression is a product, and the error is at its first operand. -/
theorem second_product_refused :
    ∃ (program : Grammar.Statements) (first second : Grammar.Phrase .assignment) (start : Token),
      program.tokens = (lex (utf8 "x; y*2;")).tokens ∧ program.phrases = [first, second] ∧
        second.tokens.head? = some start ∧ start.lexeme = utf8 "y" ∧
        start.position = ⟨0, ⟨3, 3⟩⟩ ∧
        compile {} (utf8 "x; y*2;") = .error (.parse [⟨start, .trailingInput⟩]) := by
  obtain ⟨program, first, second, others, start, tokens, trees, phrases, starts, noEnd, failed⟩ :=
    trailing_input_at_second {} (utf8 "x; y*2;") (by decide +kernel) (by decide +kernel)
      (by decide +kernel)
  have two : (parse (lex (utf8 "x; y*2;")).tokens).statements.length = 2 := by decide +kernel
  rw [← trees, Grammar.statements_trees, phrases, List.length_map] at two
  have noOthers : others = [] := by simpa using two
  have shown : (parseErrors (compile {} (utf8 "x; y*2;"))).map ParseError.token =
      [⟨.identifier, utf8 "y", .absent, ⟨0, ⟨3, 3⟩⟩, ⟨3, 3⟩⟩] := by decide +kernel
  rw [failed, parseErrors, List.map_singleton] at shown
  obtain rfl := List.head_eq_of_cons_eq shown
  exact ⟨program, first, second, _, tokens, noOthers ▸ phrases, starts, rfl, rfl, failed⟩

end Compile

end ExprCompiler
