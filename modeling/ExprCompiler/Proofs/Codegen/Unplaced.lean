import ExprCompiler.Proofs.Codegen.Acceptance
import ExprCompiler.Proofs.Grammar.Exchange
import ExprCompiler.Proofs.Token.Margins
import ExprCompiler.Proofs.Token.Places

/-!
Trees up to the places of their tokens. Code, names and folding look at the kinds and the texts of
tokens alone, so sources with the same tokens at other places compile to the same listing. In
particular white space around a source does not show in what it compiles to.
-/

namespace ExprCompiler

@[simp] theorem Token.unplaced_kind (token : Token) : token.unplaced.kind = token.kind := rfl

@[simp] theorem Token.unplaced_lexeme (token : Token) : token.unplaced.lexeme = token.lexeme := rfl

@[simp] theorem Token.unplaced_literal (token : Token) : token.unplaced.literal = token.literal :=
  rfl

namespace Expr

@[simp] def unplaced : Expr → Expr
  | literal value => literal value
  | reference name => reference name.unplaced
  | grouping inner => grouping inner.unplaced
  | unary op right => unary op.unplaced right.unplaced
  | binary left op right => binary left.unplaced op.unplaced right.unplaced
  | logical left op right => logical left.unplaced op.unplaced right.unplaced
  | assign name value => assign name.unplaced value.unplaced
  | absent => absent

theorem text_unplaced (expr : Expr) : expr.unplaced.text = expr.text := by
  induction expr with
  | _ => simp_all [unplaced, text]

theorem name_list_unplaced (expr : Expr) : expr.unplaced.nameList = expr.nameList := by
  induction expr with
  | _ => simp_all [unplaced, nameList]

theorem code_unplaced (mode : DivisionMode) (expr : Expr) :
    expr.unplaced.code mode = expr.code mode := by
  induction expr with
  | literal value => rfl
  | unary op right induction =>
      rw [unplaced, code, code, induction]
      rfl
  | _ => simp_all [unplaced, code]

theorem stack_depth_unplaced (expr : Expr) : expr.unplaced.stackDepth = expr.stackDepth := by
  induction expr with
  | _ => simp_all [unplaced, stackDepth]

theorem unsupported_unplaced (declared : List Bytes) (expr : Expr) :
    expr.unplaced.unsupported declared = expr.unsupported declared := by
  induction expr with
  | literal value => rfl
  | logical left op right _ _ =>
      have text := text_unplaced (logical left op right)
      rw [unplaced] at text ⊢
      rw [unsupported, unsupported, text]
  | assign name value _ =>
      have text := text_unplaced (assign name value)
      rw [unplaced] at text ⊢
      rw [unsupported, unsupported, text]
  | unary op right induction =>
      rw [unplaced, unsupported, unsupported, induction]
      rfl
  | binary left op right leftInduction rightInduction =>
      rw [unplaced, unsupported, unsupported, leftInduction, rightInduction]
      rfl
  | _ => simp_all [unplaced, unsupported]

theorem fold_unary_unplaced (op : Token) (right : Expr) :
    foldUnary op.unplaced right.unplaced = (foldUnary op right).unplaced := by
  cases right with
  | literal value =>
      cases value with
      | int word =>
          rw [unplaced, foldUnary, foldUnary, apply_ite unplaced]
          rfl
      | _ => rfl
  | _ => rfl

theorem fold_binary_unplaced (left : Expr) (op : Token) (right : Expr) :
    foldBinary left.unplaced op.unplaced right.unplaced = (foldBinary left op right).unplaced := by
  unfold foldBinary
  split
  · rename_i first second sameLeft sameRight
    cases left <;> cases sameLeft
    cases right <;> cases sameRight
    dsimp only [Token.unplaced_kind]
    split <;> rfl
  · rename_i noWords
    split
    · exact absurd rfl (noWords _ _ rfl)
    · rfl

theorem fold_unplaced (expr : Expr) : expr.unplaced.fold = expr.fold.unplaced := by
  induction expr with
  | literal value => rfl
  | reference name => rfl
  | grouping inner induction =>
      rw [unplaced, fold, fold, induction]
      cases inner.fold <;> rfl
  | unary op right induction => rw [unplaced, fold, fold, induction, fold_unary_unplaced]
  | binary left op right leftInduction rightInduction =>
      rw [unplaced, fold, fold, leftInduction, rightInduction, fold_binary_unplaced]
  | logical left op right leftInduction rightInduction =>
      rw [unplaced, fold, fold, leftInduction, rightInduction, unplaced]
  | assign name value induction => rw [unplaced, fold, fold, induction, unplaced]
  | absent => rfl

end Expr

/-- What is generated for a tree does not show where its tokens stand. -/
theorem generate_unplaced (options : CodegenOptions) (names : List Bytes) (expr : Expr) :
    generate options names expr.unplaced = generate options names expr := by
  have listing : listingText options names expr.unplaced = listingText options names expr := by
    rw [listingText, listingText, programLines, programLines, Expr.code_unplaced]
  rw [generate, generate, Expr.unsupported_unplaced, listing]

theorem target_unplaced (options : CompileOptions) (tree : Expr) :
    options.target tree.unplaced = (options.target tree).unplaced := by
  unfold CompileOptions.target
  split
  · exact Expr.fold_unplaced tree
  · rfl

theorem Expr.exchange_unplaced (expr : Expr) :
    expr.exchange Token.unplaced = expr.unplaced := by
  induction expr with
  | _ => simp_all [exchange, unplaced]

def ParseError.unplaced (error : ParseError) : ParseError := ⟨error.token.unplaced, error.cause⟩

def Parsed.unplaced (parsed : Parsed) : Parsed :=
  ⟨parsed.statements.map Expr.unplaced, parsed.errors.map ParseError.unplaced⟩

namespace Grammar

theorem phrase_without_text {symbol : Symbol} (phrase : Phrase symbol) {declared : List Bytes}
    (arithmetic : phrase.tree.Arithmetic declared)
    (texts : ∀ token ∈ phrase.tokens, token.kind = .string → ∀ word, token.literal ≠ .int word) :
    ∀ token ∈ phrase.tokens, token.kind ≠ .string := by
  induction phrase with
  | assign name op value _ _ _ => cases arithmetic
  | single operand _ operandPlain => exact operandPlain arithmetic texts
  | @round symbol before op last isOperator beforePlain lastPlain =>
      have parts : before.tree.Arithmetic declared ∧ last.tree.Arithmetic declared := by
        rw [Phrase.tree] at arithmetic
        cases symbol with
        | or | xor | and => cases arithmetic
        | _ =>
            cases arithmetic with
            | binary _ first second => exact ⟨first, second⟩
      have operators : op.kind ≠ .string := by
        intro isText
        rw [isText] at isOperator
        cases symbol <;> simp [Symbol.repeated] at isOperator
      simp only [Phrase.tokens, List.forall_mem_append, List.forall_mem_cons] at texts ⊢
      exact ⟨beforePlain parts.1 texts.1, operators, lastPlain parts.2 texts.2.2⟩
  | imply left op right _ _ _ => cases arithmetic
  | signed op operand isOperator operandPlain =>
      cases arithmetic with
      | negation isMinus part =>
          simp only [Phrase.tokens, List.forall_mem_cons] at texts ⊢
          exact ⟨by simp [isMinus], operandPlain part texts.2⟩
  | constant token isConstant =>
      simp only [Phrase.tokens, List.forall_mem_singleton] at texts ⊢
      intro isText
      have value : constantValue token = token.literal := by simp [constantValue, isText]
      rw [Phrase.tree, value] at arithmetic
      cases literal : token.literal with
      | int word => exact texts isText word literal
      | _ =>
          rw [literal] at arithmetic
          cases arithmetic
  | reference token isName => simp [Phrase.tokens, isName]
  | group opening inner closing opens closes innerPlain =>
      cases arithmetic with
      | grouping part =>
          simp only [Phrase.tokens, List.forall_mem_cons, List.forall_mem_append] at texts ⊢
          exact ⟨by simp [opens], innerPlain part texts.2.1, by simp [closes]⟩

theorem words_unplaced (tokens : List Token) :
    words (tokens.map Token.unplaced) = (words tokens).map Token.unplaced := List.takeWhile_map

theorem end_mark_unplaced (tokens : List Token) :
    endMark (tokens.map Token.unplaced) = (endMark tokens).unplaced := by
  have behind : (tokens.map Token.unplaced).dropWhile (·.kind ≠ .eof) =
      (tokens.dropWhile (·.kind ≠ .eof)).map Token.unplaced := List.dropWhile_map
  rw [endMark, endMark, behind]
  cases tokens.dropWhile (·.kind ≠ .eof) <;> rfl

/-- The same tokens at other places are read as the same statements and the same errors. -/
theorem parse_unplaced (tokens : List Token) :
    parse (tokens.map Token.unplaced) = (parse tokens).unplaced := by
  have noEnd := words_no_end tokens
  have isEnd := end_mark_is_end tokens
  let exchange : Exchange := ⟨Token.unplaced, (endMark tokens).unplaced, fun _ => rfl, fun _ => rfl⟩
  have errors : ∀ error ∈ (parseStatements (endMark tokens) (words tokens)).errors,
      exchange.error error = error.unplaced := by
    intro error member
    rcases List.mem_append.mp (statements_blame (words tokens) error member) with isWord | atEnd
    · rw [Exchange.error, if_neg (noEnd _ isWord)]
      rfl
    · have isMark := List.mem_singleton.mp atEnd
      rw [Exchange.error, isMark, if_pos isEnd, ParseError.unplaced, isMark]
  rw [parse_words, parse_words, words_unplaced, end_mark_unplaced,
    @Exchange.statements exchange _ _ isEnd noEnd, Exchange.parsed, Parsed.unplaced,
    List.map_congr_left errors, List.map_congr_left fun expr _ => Expr.exchange_unplaced expr]

end Grammar

section Sources

variable {source other : Bytes} {tree : Expr}

theorem HasTree.statements (hasTree : HasTree source tree) {words : List Token} {finish : Token}
    (tokens : (lex source).tokens = words ++ [finish]) (isEnd : finish.kind = .eof)
    (noEnd : ∀ token ∈ words, token.kind ≠ .eof) :
    ∃ statements : Grammar.Statements, statements.words = words ∧ statements.trees = [tree] := by
  have parsed := hasTree.parsed
  rw [tokens, parse, Grammar.split_at_end _ noEnd isEnd] at parsed
  obtain ⟨statements, same, trees⟩ := Grammar.statements_sound isEnd _ _ parsed
  rw [Grammar.statements_tokens] at same
  exact ⟨statements, List.append_inj_left' same rfl, trees⟩

theorem HasTree.moved (hasTree : HasTree source tree) (clean : (lex other).errors = [])
    (same : (lex other).tokens.map Token.unplaced = (lex source).tokens.map Token.unplaced) :
    ∃ moved, HasTree other moved ∧ moved.unplaced = tree.unplaced := by
  have parsed := Grammar.parse_unplaced (lex other).tokens
  rw [same, Grammar.parse_unplaced, hasTree.parsed] at parsed
  obtain ⟨statements, errors⟩ := Parsed.mk.inj parsed
  obtain ⟨moved, isOnly, sameTree⟩ := List.map_eq_singleton_iff.mp statements.symm
  refine ⟨moved, ⟨clean, ?_⟩, sameTree⟩
  rw [← isOnly, ← List.map_eq_nil_iff.mp errors.symm]

theorem text_literal {token : Token} (member : token ∈ (lex source).tokens)
    (isText : token.kind = .string) (word : Word) : token.literal ≠ .int word := by
  rcases (reads_rounds (reads_lex source)).1 token member with
    rfl | ⟨_, _, _, _, round⟩
  · cases isText
  · cases round with
    | token longest means =>
        cases means with
        | operator | keyword | identifier | text => exact fun same => nomatch same
        | number => cases isText

theorem HasTree.without_text {declared : List Bytes} (hasTree : HasTree source tree)
    (arithmetic : tree.Arithmetic declared) :
    ∀ token ∈ (lex source).tokens, token.kind ≠ .string := by
  obtain ⟨words, finish, tokens, isEnd, noEnd⟩ := lex_words source
  obtain ⟨statements, rfl, trees⟩ := hasTree.statements tokens isEnd noEnd
  have texts : ∀ token ∈ statements.words, token.kind = .string →
      ∀ word, token.literal ≠ .int word := fun token member =>
    text_literal (by rw [tokens]; exact List.mem_append_left _ member)
  rw [tokens, List.forall_mem_append, List.forall_mem_singleton]
  refine ⟨?_, by simp [isEnd]⟩
  cases statements with
  | done => cases trees
  | last expr mark _ =>
      cases trees
      exact Grammar.phrase_without_text expr arithmetic texts
  | next expr semicolon rest isSemicolon =>
      obtain ⟨rfl, noMore⟩ := List.cons.inj trees
      cases rest with
      | done mark _ =>
          rw [Grammar.Statements.words, List.forall_mem_append, List.forall_mem_cons] at texts ⊢
          exact ⟨Grammar.phrase_without_text expr arithmetic texts.1, by simp [isSemicolon],
            by simp [Grammar.Statements.words]⟩
      | last | next => cases noMore

variable {options : CompileOptions} {output : Output}

/-- A source with the same tokens at other places compiles to the same listing. -/
theorem compile_moved (compiled : compile options source = .ok output)
    (clean : (lex other).errors = [])
    (same : (lex other).tokens.map Token.unplaced = (lex source).tokens.map Token.unplaced) :
    ∃ moved, compile options other = .ok moved ∧ moved.variableNames = output.variableNames ∧
      moved.assembly = output.assembly ∧
      moved.folded.stackDepth = output.folded.stackDepth := by
  obtain ⟨hasTree, folded, names, generated⟩ := compile_cases compiled
  obtain ⟨moved, hasTree', sameTree⟩ := hasTree.moved clean same
  have target : (options.target moved).unplaced = output.folded.unplaced := by
    rw [← target_unplaced, sameTree, target_unplaced, folded]
  have sameNames : (options.target moved).names = output.variableNames := by
    rw [names, Expr.names, Expr.names, ← Expr.name_list_unplaced, target, Expr.name_list_unplaced]
  have generated' : generate options.toCodegenOptions (options.target moved).names
      (options.target moved) = .ok output.assembly := by
    rw [sameNames, ← generate_unplaced, target, generate_unplaced, generated]
  refine ⟨_, compile_of_tree hasTree' generated', sameNames, rfl, ?_⟩
  rw [← Expr.stack_depth_unplaced, target, Expr.stack_depth_unplaced]

theorem compile_trim (compiled : compile options source = .ok output) :
    ∃ trimmed, compile options (Text.trim source) = .ok trimmed ∧
      trimmed.variableNames = output.variableNames ∧ trimmed.assembly = output.assembly ∧
      trimmed.folded.stackDepth = output.folded.stackDepth := by
  obtain ⟨hasTree, _⟩ := compile_cases compiled
  obtain ⟨clean, same⟩ := lex_trim hasTree.lexed (hasTree.without_text (tree_arithmetic compiled))
  exact compile_moved compiled clean same

end Sources

end ExprCompiler
