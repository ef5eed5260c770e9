import ExprCompiler.Proofs.Charset.Common
import ExprCompiler.Proofs.Codegen.Reload

/-!
Which sources compile. A source compiles when it is one arithmetic tree, whatever the options are.
Where it does not, the stage that fails is the same with all options, and so are its errors, except
that the text of an unsupported expression shows what folding has made of it.
-/

namespace ExprCompiler

/-- What an error says whether or not its expression was folded. -/
def CodegenError.fixedPart (error : CodegenError) : CodegenErrorKind × Option Bytes :=
  (error.kind, if error.kind = .unsupportedExpression then none else some error.detail)

inductive SameVerdict : Except CompileError Output → Except CompileError Output → Prop where
  | compiled {first second : Output} (tree : first.tree = second.tree)
      (names : first.variableNames = second.variableNames) : SameVerdict (.ok first) (.ok second)
  | lex (errors : List LexError) : SameVerdict (.error (.lex errors)) (.error (.lex errors))
  | parse (errors : List ParseError) : SameVerdict (.error (.parse errors)) (.error (.parse errors))
  | codegen {first second : List CodegenError}
      (same : first.map CodegenError.fixedPart = second.map CodegenError.fixedPart) :
      SameVerdict (.error (.codegen first)) (.error (.codegen second))

namespace Expr

variable {declared : List Bytes}

theorem unsupported_fold_grouping (inner : Expr) :
    (foldGrouping inner).unsupported declared = inner.unsupported declared := by
  unfold foldGrouping
  split <;> rfl

theorem unsupported_fold_unary (op : Token) (right : Expr) :
    (foldUnary op right).unsupported declared = (unary op right).unsupported declared := by
  unfold foldUnary
  split
  · split
    · rename_i isMinus
      simp [unsupported, isMinus]
    · rfl
  · rfl

theorem unsupported_fold_binary (left : Expr) (op : Token) (right : Expr) :
    (foldBinary left op right).unsupported declared =
      (binary left op right).unsupported declared := by
  unfold foldBinary
  split
  · rename_i first second
    split
    · rename_i word folded
      have hasCode : isArithmetic op.kind = true := by
        have arithmetic : (foldBinary (literal (.int first)) op (literal (.int second))).Arithmetic
            declared := by
          rw [foldBinary, folded]
          exact .literal word
        exact (arithmetic_of_fold_binary arithmetic).1
      simp [unsupported, hasCode]
    · rfl
  · rfl

theorem Arithmetic.over {expr : Expr} {listed : List Bytes} (arithmetic : expr.Arithmetic declared)
    (known : ∀ name ∈ expr.nameList, name ∈ listed) : expr.Arithmetic listed := by
  induction arithmetic with
  | literal word => exact .literal word
  | reference name _ => exact .reference name (known name.lexeme (by simp [nameList]))
  | grouping _ inner => exact .grouping (inner known)
  | negation isMinus _ right => exact .negation isMinus (right known)
  | binary hasCode _ _ left right =>
      exact .binary hasCode (left fun name member => known name (by simp [nameList, member]))
        (right fun name member => known name (by simp [nameList, member]))

/-- Folding neither adds an error nor takes one away. -/
theorem fixed_parts_fold (expr : Expr) :
    (expr.fold.unsupported declared).map CodegenError.fixedPart =
      (expr.unsupported declared).map CodegenError.fixedPart := by
  induction expr with
  | literal value => rfl
  | reference name => rfl
  | grouping inner innerSame => rw [fold, unsupported_fold_grouping, innerSame, unsupported]
  | unary op right rightSame =>
      rw [fold, unsupported_fold_unary, unsupported, unsupported, List.map_append, List.map_append,
        rightSame]
  | binary left op right leftSame rightSame =>
      rw [fold, unsupported_fold_binary, unsupported, unsupported]
      simp only [List.map_append, leftSame, rightSame]
  | logical left op right _ _ => rfl
  | assign name value _ => rfl
  | absent => rfl

end Expr

section Details

-- The text about an undeclared variable starts with the letter of code 0x76. All other details are
-- quoted, stand in parentheses or start with another letter, so none can be taken for it.

theorem kind_name_start (kind : TokenKind) : kind.name.head? ≠ some 0x76 := by
  cases kind with
  | unknown code =>
      have word : utf8 "TokenType(" = 0x54 :: utf8 "okenType(" := by decide
      rw [TokenKind.name, word]
      simp
  | _ => decide +kernel

theorem list_text_start (parts : List Bytes) : (Expr.listText parts).head? ≠ some 0x76 := by
  have opening : utf8 "(" = [0x28] := by decide
  rw [Expr.listText, opening]
  simp

theorem literal_start {value : Value} (notWord : ∀ word, value ≠ .int word) :
    value.literal.head? ≠ some 0x76 := by
  cases value with
  | int word => exact absurd rfl (notWord word)
  | bool flag => cases flag <;> decide
  | text content => simp [Value.literal, Text.quote, Text.doubleQuote]
  | absent => decide

/-- No error about a tree over its declared names reads like one about an undeclared name. -/
theorem detail_start {declared : List Bytes} {expr : Expr}
    (known : ∀ name ∈ expr.nameList, name ∈ declared) :
    ∀ error ∈ expr.unsupported declared, error.detail.head? ≠ some 0x76 := by
  induction expr with
  | literal value =>
      cases value with
      | int word => simp [Expr.unsupported]
      | _ =>
          intro error member
          rw [List.mem_singleton.mp member]
          dsimp only
          apply literal_start
          simp
  | reference name =>
      have declaredName : declared.contains name.lexeme = true := by
        simpa using known name.lexeme (by simp [Expr.nameList])
      rw [Expr.unsupported, if_pos declaredName]
      simp
  | grouping inner induction => exact induction known
  | unary op right induction =>
      intro error member
      rw [Expr.unsupported, List.mem_append] at member
      rcases member with inRight | here
      · exact induction known error inRight
      · split at here
        · cases here
        · rw [List.mem_singleton.mp here]
          exact kind_name_start op.kind
  | binary left op right leftInduction rightInduction =>
      intro error member
      rw [Expr.unsupported, List.mem_append, List.mem_append] at member
      rcases member with (inLeft | inRight) | here
      · exact leftInduction (fun name inNames => known name (by simp [Expr.nameList, inNames]))
          error inLeft
      · exact rightInduction (fun name inNames => known name (by simp [Expr.nameList, inNames]))
          error inRight
      · split at here
        · cases here
        · rw [List.mem_singleton.mp here]
          exact kind_name_start op.kind
  | logical left op right _ _ =>
      intro error member
      rw [List.mem_singleton.mp member]
      exact list_text_start _
  | assign name value _ =>
      intro error member
      rw [List.mem_singleton.mp member]
      exact list_text_start _
  | absent =>
      intro error member
      rw [List.mem_singleton.mp member]
      decide

end Details

section Verdict

variable {options other : CompileOptions} {source : Bytes} {tree : Expr} {charset : Charset}

theorem compile_failed_of_tree {errors : List CodegenError} (hasTree : HasTree source tree)
    (failed : generate options.toCodegenOptions (options.target tree).names
      (options.target tree) = .error errors) :
    compile options source = .error (.codegen errors) := by
  unfold CompileOptions.target at failed
  rw [compile, compileLogged]
  dsimp only
  rw [if_neg (Decidable.not_not.mpr hasTree.lexed), hasTree.parsed]
  simp only [ne_eq, not_true_eq_false, if_false, singleExpression, compileTree, failed]

/-- Without a tree, a source fails before any option is looked at. -/
theorem tree_or_failure (source : Bytes) :
    (∃ tree, HasTree source tree) ∨
      (∃ errors, ∀ options, compile options source = .error (.lex errors)) ∨
      ∃ errors, ∀ options, compile options source = .error (.parse errors) := by
  by_cases lexed : (lex source).errors = []
  · by_cases parsed : (parse (lex source).tokens).errors = []
    · cases single : singleExpression (lex source).tokens
          (parse (lex source).tokens).statements with
      | ok tree =>
          refine .inl ⟨tree, lexed, ?_⟩
          rw [← single_expression_cases single, ← parsed]
      | error problem =>
          refine .inr (.inr ⟨[problem], fun options => ?_⟩)
          simp [compile, compileLogged, lexed, parsed, single]
    · refine .inr (.inr ⟨(parse (lex source).tokens).errors, fun options => ?_⟩)
      simp [compile, compileLogged, lexed, parsed]
  · refine .inr (.inl ⟨(lex source).errors, fun options => ?_⟩)
    simp [compile, compileLogged, lexed]

/-- With a tree, generation alone decides: what is in its way is an error, and else it succeeds. -/
theorem compile_tree_cases (hasTree : HasTree source tree)
    (resolved : options.charsets.resolve options.encoding = .ok charset)
    (ascii : charset.EncodesAscii) :
    (∃ assembly, (options.target tree).unsupported tree.names = [] ∧
        compile options source = .ok ⟨(lex source).tokens, tree, options.target tree,
          tree.names, assembly⟩) ∨
      (options.target tree).unsupported tree.names ≠ [] ∧
        compile options source =
          .error (.codegen ((options.target tree).unsupported tree.names)) := by
  have identifiers : ∀ name ∈ tree.names, IsIdentifier name := by
    intro name member
    rw [Expr.names, Text.mem_sorted_set] at member
    exact names_of_source hasTree.parsed tree (by simp) name member
  cases found : (options.target tree).unsupported tree.names with
  | nil =>
      have arithmetic := Expr.arithmetic_of_supported found
      have plain := listing_text_plain options.toCodegenOptions identifiers arithmetic
      obtain ⟨bytes, encoded⟩ := ascii _ plain.ascii
      have generated : generate options.toCodegenOptions tree.names (options.target tree) =
          .ok ⟨bytes, charset.canonical⟩ := by
        simp only [generate, found, resolved, encoded]
      have names := @target_names options tree
      rw [← names] at generated
      have compiled := compile_of_tree hasTree generated
      rw [names] at compiled
      exact .inl ⟨_, rfl, compiled⟩
  | cons error errors =>
      have failed : generate options.toCodegenOptions tree.names (options.target tree) =
          .error (error :: errors) := by
        simp only [generate, found]
      rw [← @target_names options tree] at failed
      exact .inr ⟨by simp, compile_failed_of_tree hasTree failed⟩

theorem fixed_parts_target (options : CompileOptions) (tree : Expr) (declared : List Bytes) :
    ((options.target tree).unsupported declared).map CodegenError.fixedPart =
      (tree.unsupported declared).map CodegenError.fixedPart := by
  unfold CompileOptions.target
  split
  · exact Expr.fixed_parts_fold tree
  · rfl

theorem target_supported (options : CompileOptions) (tree : Expr) (declared : List Bytes) :
    (options.target tree).unsupported declared = [] ↔ tree.unsupported declared = [] := by
  rw [← @List.map_eq_nil_iff _ _ CodegenError.fixedPart, fixed_parts_target, List.map_eq_nil_iff]

theorem mem_names (tree : Expr) (name : Bytes) : name ∈ tree.names ↔ name ∈ tree.nameList :=
  Text.mem_sorted_set name tree.nameList

theorem compiles_iff_arithmetic
    (resolved : options.charsets.resolve options.encoding = .ok charset)
    (ascii : charset.EncodesAscii) :
    (∃ output, compile options source = .ok output) ↔
      ∃ tree, HasTree source tree ∧ tree.Arithmetic tree.nameList := by
  constructor
  · rintro ⟨output, compiled⟩
    obtain ⟨hasTree, _⟩ := compile_cases compiled
    exact ⟨output.tree, hasTree, (tree_arithmetic compiled).over fun _ member => member⟩
  · rintro ⟨tree, hasTree, arithmetic⟩
    have supported : tree.unsupported tree.names = [] :=
      Expr.supported_of_arithmetic (arithmetic.over fun name => (mem_names tree name).mpr)
    rcases compile_tree_cases hasTree resolved ascii with ⟨assembly, _, compiled⟩ | ⟨blocked, _⟩
    · exact ⟨_, compiled⟩
    · exact absurd ((target_supported options tree _).mpr supported) blocked

theorem same_verdict (resolved : options.charsets.resolve options.encoding = .ok charset)
    (resolvedOther : other.charsets.resolve other.encoding = .ok charset)
    (ascii : charset.EncodesAscii) :
    SameVerdict (compile options source) (compile other source) := by
  rcases tree_or_failure source with ⟨tree, hasTree⟩ | ⟨errors, failed⟩ | ⟨errors, failed⟩
  · have both := (target_supported options tree tree.names).trans
      (target_supported other tree tree.names).symm
    rcases compile_tree_cases hasTree resolved ascii with
      ⟨assembly, supported, compiled⟩ | ⟨blocked, failed⟩
    · rcases compile_tree_cases hasTree resolvedOther ascii with
        ⟨assembly', _, compiled'⟩ | ⟨blocked', _⟩
      · rw [compiled, compiled']
        exact .compiled rfl rfl
      · exact absurd (both.mp supported) blocked'
    · rcases compile_tree_cases hasTree resolvedOther ascii with
        ⟨_, supported', _⟩ | ⟨_, failed'⟩
      · exact absurd (both.mpr supported') blocked
      · rw [failed, failed']
        apply SameVerdict.codegen
        rw [fixed_parts_target, fixed_parts_target]
  · rw [failed options, failed other]
    exact .lex errors
  · rw [failed options, failed other]
    exact .parse errors

theorem compiled_variables {output : Output} (compiled : compile options source = .ok output) :
    HasTree source output.tree ∧ Text.Increasing output.variableNames ∧
      ∀ name, name ∈ output.variableNames ↔ name ∈ output.tree.nameList := by
  obtain ⟨hasTree, folded, names, _⟩ := compile_cases compiled
  have sameNames : output.variableNames = output.tree.names := by
    rw [names, folded, target_names]
  rw [sameNames]
  exact ⟨hasTree, Text.increasing_sorted_set _, mem_names output.tree⟩

theorem no_undeclared_variable {errors : List CodegenError}
    (resolved : options.charsets.resolve options.encoding = .ok charset)
    (ascii : charset.EncodesAscii)
    (failed : compile options source = .error (.codegen errors)) :
    ∀ error ∈ errors, ∀ name,
      error.detail ≠ utf8 "variable " ++ name ++ utf8 " is not declared" := by
  have word : utf8 "variable " = 0x76 :: utf8 "ariable " := by decide
  intro error member name reads
  have start : error.detail.head? = some 0x76 := by
    rw [reads, word]
    rfl
  rcases tree_or_failure source with ⟨tree, hasTree⟩ | ⟨_, failed'⟩ | ⟨_, failed'⟩
  · rcases compile_tree_cases hasTree resolved ascii with ⟨_, _, compiled⟩ | ⟨_, failed'⟩
    · cases failed.symm.trans compiled
    · cases failed.symm.trans failed'
      refine detail_start ?_ error member start
      intro known inTarget
      rw [← mem_names, target_names] at inTarget
      exact inTarget
  · cases failed.symm.trans (failed' options)
  · cases failed.symm.trans (failed' options)

/-- Folding, merging and the division mode decide nothing about whether a source compiles, with any
character set that has the characters of ASCII. It does when it is one tree of arithmetic over its
own variables, which are then listed in order. -/
theorem verdict_independent (source : Bytes) (options other : CompileOptions) (charset : Charset)
    (charsets : other.charsets = options.charsets) (encoding : other.encoding = options.encoding)
    (resolved : options.charsets.resolve options.encoding = .ok charset)
    (ascii : charset.EncodesAscii) :
    ((∃ output, compile options source = .ok output) ↔
        ∃ tree, HasTree source tree ∧ tree.Arithmetic tree.nameList) ∧
      SameVerdict (compile options source) (compile other source) ∧
      (∀ output, compile options source = .ok output → HasTree source output.tree ∧
        Text.Increasing output.variableNames ∧
        ∀ name, name ∈ output.variableNames ↔ name ∈ output.tree.nameList) ∧
      ∀ errors, compile options source = .error (.codegen errors) → ∀ error ∈ errors, ∀ name,
        error.detail ≠ utf8 "variable " ++ name ++ utf8 " is not declared" := by
  have resolvedOther : other.charsets.resolve other.encoding = .ok charset := by
    rw [charsets, encoding]
    exact resolved
  refine ⟨compiles_iff_arithmetic resolved ascii, same_verdict resolved resolvedOther ascii, ?_, ?_⟩
  · intro output compiled
    exact compiled_variables compiled
  · intro errors failed
    exact no_undeclared_variable resolved ascii failed

def mixedSource : Bytes := utf8 "-true + (1 + 2 and x)"

def plainOptions : CompileOptions := { fold := false, peephole := false, division := .zero }

def codegenErrors : Except CompileError Output → List CodegenError
  | .error (.codegen errors) => errors
  | _ => []

/-- Folding shows in the text of the connective and nowhere else. -/
theorem mixed_errors_verdict :
    codegenErrors (compile {} mixedSource) =
        [⟨.unsupportedOperand, utf8 "true"⟩, ⟨.unsupportedExpression, utf8 "(and 3 x)"⟩] ∧
      codegenErrors (compile plainOptions mixedSource) =
        [⟨.unsupportedOperand, utf8 "true"⟩, ⟨.unsupportedExpression, utf8 "(and (+ 1 2) x)"⟩] ∧
      SameVerdict (compile {} mixedSource) (compile plainOptions mixedSource) :=
  ⟨by decide +kernel, by decide +kernel,
    (verdict_independent mixedSource {} plainOptions _ rfl rfl
      (CharsetRegistry.resolve_canonical .utf8) (CommonCharset.encodes_ascii .utf8)).2.1⟩

end Verdict

end ExprCompiler
