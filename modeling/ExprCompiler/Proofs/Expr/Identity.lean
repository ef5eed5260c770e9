import ExprCompiler.Expr.Fold
import ExprCompiler.Proofs.Codegen.Unplaced
import ExprCompiler.Proofs.Expr.Form
import ExprCompiler.Proofs.Grammar.Program
import ExprCompiler.Proofs.Session.Input
import ExprCompiler.Proofs.Token.Spacing

/-!
The one-line text of a tree tells the tree. A lexeme fixes the kind and the value of its token, so
the head of a form says which operator and which kind of node it comes from, and a leaf shows
whether it is a name, a number, a truth value or a text. Trees that are read from sources, folded or
not, therefore have the same text only if they are the same up to the places of their tokens.
-/

namespace ExprCompiler

open Lexicon

namespace Lexicon

variable {token : Token}

/-- A lexeme has one kind and one value. -/
theorem IsToken.fixed {pattern : Pattern} {lexeme : Bytes} {kind : TokenKind} {literal : Value}
    (isToken : IsToken token) (matched : Matches pattern lexeme)
    (means : Means pattern lexeme kind literal) (same : token.lexeme = lexeme) :
    token.kind = kind ∧ token.literal = literal := by
  obtain ⟨other, matched', means'⟩ := isToken
  rw [same] at matched' means'
  obtain ⟨first, _, rfl, isPattern, _⟩ := matches_start matched
  obtain ⟨_, _, start, isOther, _⟩ := matches_start matched'
  rw [← (List.cons.inj start).1, isPattern] at isOther
  subst isOther
  exact means'.unique means

theorem IsToken.unplaced_eq {other : Token} (isToken : IsToken token) (isOther : IsToken other)
    (same : token.lexeme = other.lexeme) : token.unplaced = other.unplaced := by
  obtain ⟨pattern, matched, means⟩ := isOther
  obtain ⟨kind, literal⟩ := isToken.fixed matched means same
  simp only [Token.unplaced, Token.mk.injEq, and_true]
  exact ⟨kind, same, literal⟩

theorem IsToken.kind_eq {other : Token} (isToken : IsToken token) (isOther : IsToken other)
    (same : token.lexeme = other.lexeme) : token.kind = other.kind := by
  obtain ⟨pattern, matched, means⟩ := isOther
  exact (isToken.fixed matched means same).1

theorem IsToken.ne_nil (isToken : IsToken token) : token.lexeme ≠ [] := by
  obtain ⟨_, matched, _⟩ := isToken
  obtain ⟨first, later, start, _⟩ := matches_start matched
  rw [start]
  exact List.cons_ne_nil first later

theorem IsToken.word_bytes (isToken : IsToken token)
    (plain : token.kind ∉ [TokenKind.leftParen, .rightParen, .string]) :
    ∀ byte ∈ token.lexeme, Form.isWordByte byte = true := by
  have inLetters : ∀ byte ∈ letters, Form.isWordByte byte = true := by decide +kernel
  have inDigits : ∀ byte ∈ digits, Form.isWordByte byte = true := by decide +kernel
  obtain ⟨pattern, matched, means⟩ := isToken
  generalize token.lexeme = lexeme at matched means ⊢
  generalize token.kind = kind at plain means
  generalize token.literal = literal at means
  cases means with
  | @operator entry listed =>
      have table : ∀ entry ∈ operators,
          entry.2 ∉ [TokenKind.leftParen, .rightParen, .string] →
            ∀ byte ∈ utf8 entry.1, Form.isWordByte byte = true := by decide +kernel
      exact table entry listed plain
  | @keyword entry listed =>
      have table : ∀ entry ∈ TokenKind.keywords, ∀ byte ∈ utf8 entry.1,
          Form.isWordByte byte = true := by decide +kernel
      exact table entry listed
  | identifier =>
      cases matched with
      | word starts parts =>
          intro byte member
          rcases List.mem_cons.mp member with rfl | later
          · exact inLetters byte starts
          · exact (parts byte later).elim (inLetters byte) (inDigits byte)
  | number =>
      cases matched with
      | number starts parts =>
          intro byte member
          rcases List.mem_cons.mp member with rfl | later
          · exact inDigits byte starts
          · rcases parts byte later with digit | rfl
            · exact inDigits byte digit
            · decide +kernel
  | text => exact absurd (by simp) plain

theorem IsToken.name_start (isToken : IsToken token) (isName : token.kind = .identifier) :
    ∃ first later, token.lexeme = first :: later ∧ first ∈ letters := by
  obtain ⟨pattern, matched, means⟩ := isToken
  generalize token.lexeme = lexeme at matched means ⊢
  generalize token.kind = kind at isName means
  generalize token.literal = literal at means
  have table : ∀ entries ∈ [operators, TokenKind.keywords], ∀ entry ∈ entries,
      entry.2 ≠ .identifier := by decide +kernel
  cases means with
  | operator listed => exact absurd isName (table _ (by simp) _ listed)
  | keyword listed => exact absurd isName (table _ (by simp) _ listed)
  | identifier =>
      cases matched with
      | word starts _ => exact ⟨_, _, rfl, starts⟩
  | number => cases isName
  | text => cases isName

end Lexicon

namespace Value

theorem literal_atom {value : Value} (present : value ≠ .absent) : Form.Atom value.literal := by
  cases value with
  | int word =>
      refine .word (Text.decimal_ne_nil word.toInt) ?_
      intro byte member
      have part := Text.decimal_parts word.toInt byte member
      rw [Form.isWordByte, Bool.not_eq_true', ← Bool.not_eq_true, List.contains_iff_mem]
      intro ending
      have digit : ∀ byte ∈ [0x20, 0x28, 0x29, Text.doubleQuote],
          Text.isDecimalPart byte = false := by decide
      rw [digit byte ending] at part
      cases part
  | bool flag => cases flag <;> exact .word (by decide +kernel) (by decide +kernel)
  | text content => exact .quoted content
  | absent => exact absurd rfl present

end Value

/-- What the first byte of a leaf tells apart. -/
inductive Leaf where
  | number | text | word
  deriving DecidableEq

namespace Leaf

def ofText : Bytes → Leaf
  | [] => word
  | first :: _ =>
      if Text.isDecimalPart first then number
      else if first = Text.doubleQuote then text
      else word

def ofValue : Value → Leaf
  | .int _ => number
  | .text _ => text
  | _ => word

theorem of_literal (value : Value) : ofText value.literal = ofValue value := by
  cases value with
  | int word =>
      obtain ⟨first, later, start⟩ := List.exists_cons_of_ne_nil (Text.decimal_ne_nil word.toInt)
      have digit := Text.decimal_parts word.toInt first (by rw [start]; exact List.mem_cons_self)
      have literal : (Value.int word).literal = first :: later := start
      rw [literal, ofText, if_pos digit, ofValue]
  | bool flag => cases flag <;> decide
  | text content => rfl
  | absent => decide

theorem of_name {name : Token} (isToken : IsToken name) (isName : name.kind = .identifier) :
    ofText name.lexeme = word := by
  obtain ⟨first, later, start, isLetter⟩ := isToken.name_start isName
  have table : ∀ letter ∈ letters,
      Text.isDecimalPart letter = false ∧ letter ≠ Text.doubleQuote := by decide +kernel
  obtain ⟨noDigit, noQuote⟩ := table first isLetter
  rw [start, ofText, if_neg (by rw [noDigit]; decide), if_neg noQuote]

end Leaf

theorem Value.literal_inj {value other : Value} (present : value ≠ .absent)
    (present' : other ≠ .absent) (same : value.literal = other.literal) : value = other := by
  have leaves := congrArg Leaf.ofText same
  rw [Leaf.of_literal, Leaf.of_literal] at leaves
  cases value with
  | int word =>
      cases other with
      | int other =>
          have read := read_word_text word
          rw [show word.text = other.text from same, read_word_text] at read
          rw [Except.ok.inj read]
      | _ => cases leaves
  | bool flag =>
      cases other with
      | bool other =>
          have table : ∀ flag other : Bool,
              (Value.bool flag).literal = (Value.bool other).literal → flag = other := by
            decide +kernel
          rw [table flag other same]
      | absent => exact absurd rfl present'
      | _ => cases leaves
  | text content =>
      cases other with
      | text other =>
          have quoted := congrArg (· ++ []) same
          rw [(Text.quoted_apart quoted).1]
      | _ => cases leaves
  | absent => exact absurd rfl present

theorem literal_ne_name {value : Value} {name : Token} (present : value ≠ .absent)
    (isToken : IsToken name) (isName : name.kind = .identifier) : value.literal ≠ name.lexeme := by
  intro same
  have leaves := congrArg Leaf.ofText same
  rw [Leaf.of_literal, Leaf.of_name isToken isName] at leaves
  cases value with
  | bool flag =>
      have matched : Matches .word (Value.bool flag).literal := by
        cases flag <;> exact .word (by decide +kernel) (by decide +kernel)
      have means : Means .word (Value.bool flag).literal
          (if flag then .trueWord else .falseWord) .absent := by
        cases flag
        · exact @Means.keyword ("false", .falseWord) (by decide)
        · exact @Means.keyword ("true", .trueWord) (by decide)
      have kind := (isToken.fixed matched means same.symm).1
      rw [isName] at kind
      cases flag <;> cases kind
  | absent => exact absurd rfl present
  | _ => cases leaves

def signKinds : List TokenKind := [.not, .minus]

def binaryKinds : List TokenKind :=
  [.equalEqual, .bangEqual, .greater, .greaterEqual, .less, .lessEqual, .plus, .minus, .star,
    .slash, .percent]

def connectiveKinds : List TokenKind := [.imp, .nimp, .or, .nor, .xor, .xnor, .and, .nand]

namespace Expr

/-- Trees whose tokens are what their lexemes stand for, each in a place where it belongs. -/
inductive Spelled : Expr → Prop where
  | literal {value : Value} (present : value ≠ .absent) : Spelled (.literal value)
  | reference {name : Token} (isToken : IsToken name) (isName : name.kind = .identifier) :
      Spelled (.reference name)
  | grouping {inner : Expr} (part : Spelled inner) : Spelled (.grouping inner)
  | unary {op : Token} {right : Expr} (isToken : IsToken op) (isSign : op.kind ∈ signKinds)
      (part : Spelled right) : Spelled (.unary op right)
  | binary {left right : Expr} {op : Token} (isToken : IsToken op)
      (isOperator : op.kind ∈ binaryKinds) (first : Spelled left) (second : Spelled right) :
      Spelled (.binary left op right)
  | logical {left right : Expr} {op : Token} (isToken : IsToken op)
      (isConnective : op.kind ∈ connectiveKinds) (first : Spelled left) (second : Spelled right) :
      Spelled (.logical left op right)
  | assign {name : Token} {value : Expr} (isToken : IsToken name)
      (isName : name.kind = .identifier) (part : Spelled value) : Spelled (.assign name value)

def form : Expr → Form
  | literal value => .atom value.literal
  | reference name => .atom name.lexeme
  | grouping inner => .one (utf8 "group") inner.form
  | unary op right => .one op.lexeme right.form
  | binary left op right => .two op.lexeme left.form right.form
  | logical left op right => .two op.lexeme left.form right.form
  | assign name value => .two (utf8 ":=") (.atom name.lexeme) value.form
  | absent => .atom (utf8 "%!s(<nil>)")

theorem text_form (expr : Expr) : expr.form.text = expr.text := by
  induction expr with
  | _ => simp_all [form, Form.text, text]

theorem Spelled.legible {expr : Expr} (spelled : expr.Spelled) : expr.form.Legible := by
  have atKinds {kinds : List TokenKind} {op : Token} (isToken : IsToken op) (among : op.kind ∈ kinds)
      (plain : ∀ kind ∈ kinds, kind ∉ [TokenKind.leftParen, .rightParen, .string]) :
      ∀ byte ∈ op.lexeme, Form.isWordByte byte = true := isToken.word_bytes (plain _ among)
  have name {name : Token} (isToken : IsToken name) (isName : name.kind = .identifier) :
      Form.Atom name.lexeme := .word isToken.ne_nil (isToken.word_bytes (by simp [isName]))
  induction spelled with
  | literal present => exact .atom (Value.literal_atom present)
  | reference isToken isName => exact .atom (name isToken isName)
  | grouping _ inner => exact .one (by decide +kernel) inner
  | unary isToken isSign _ right => exact .one (atKinds isToken isSign (by decide)) right
  | binary isToken isOperator _ _ left right =>
      exact .two (atKinds isToken isOperator (by decide)) left right
  | logical isToken isConnective _ _ left right =>
      exact .two (atKinds isToken isConnective (by decide)) left right
  | assign isToken isName _ value =>
      exact .two (by decide +kernel) (.atom (name isToken isName)) value

/-- The head of a group would be a name, so it is the lexeme of no operator. -/
theorem group_ne_lexeme {op : Token} (isToken : IsToken op) (noName : op.kind ≠ .identifier) :
    utf8 "group" ≠ op.lexeme := by
  intro same
  have matched : Matches .word (utf8 "group") := .word (by decide +kernel) (by decide +kernel)
  have means : Means .word (utf8 "group") .identifier .absent := .identifier (by decide +kernel)
  exact noName (isToken.fixed matched means same.symm).1

theorem assign_ne_lexeme {op : Token} (isToken : IsToken op) (noAssign : op.kind ≠ .colonEqual) :
    utf8 ":=" ≠ op.lexeme := by
  intro same
  have listed : ((":=", .colonEqual) : String × TokenKind) ∈ operators := by decide
  exact noAssign (isToken.fixed (.operator listed) (.operator listed) same.symm).1

theorem unplaced_of_form {left right : Expr} (spelled : left.Spelled) (spelled' : right.Spelled)
    (same : left.form = right.form) : left.unplaced = right.unplaced := by
  have signNoName : ∀ kind ∈ signKinds, kind ≠ .identifier := by decide
  have binaryNoAssign : ∀ kind ∈ binaryKinds, kind ≠ .colonEqual ∧ kind ∉ connectiveKinds := by
    decide
  have connectiveNoAssign : ∀ kind ∈ connectiveKinds,
      kind ≠ .colonEqual ∧ kind ∉ binaryKinds := by decide
  -- Leaves are told apart by their texts, lists of one size by their heads.
  induction spelled generalizing right with
  | literal present =>
      cases spelled' with
      | literal present' => rw [Value.literal_inj present present' (Form.atom.inj same)]
      | reference isToken isName =>
          exact absurd (Form.atom.inj same) (literal_ne_name present isToken isName)
      | _ => cases same
  | reference isToken isName =>
      cases spelled' with
      | literal present' =>
          exact absurd (Form.atom.inj same).symm (literal_ne_name present' isToken isName)
      | reference isToken' isName' =>
          rw [unplaced, unplaced, isToken.unplaced_eq isToken' (Form.atom.inj same)]
      | _ => cases same
  | grouping _ innerSame =>
      cases spelled' with
      | grouping part' =>
          rw [unplaced, unplaced, innerSame part' (Form.one.inj same).2]
      | unary isToken' isSign' _ =>
          exact absurd (Form.one.inj same).1 (group_ne_lexeme isToken' (signNoName _ isSign'))
      | _ => cases same
  | unary isToken isSign _ rightSame =>
      cases spelled' with
      | grouping part' =>
          exact absurd (Form.one.inj same).1.symm (group_ne_lexeme isToken (signNoName _ isSign))
      | unary isToken' isSign' part' =>
          obtain ⟨heads, parts⟩ := Form.one.inj same
          rw [unplaced, unplaced, isToken.unplaced_eq isToken' heads, rightSame part' parts]
      | _ => cases same
  | binary isToken isOperator _ _ leftSame rightSame =>
      cases spelled' with
      | binary isToken' isOperator' first' second' =>
          obtain ⟨heads, lefts, rights⟩ := Form.two.inj same
          rw [unplaced, unplaced, isToken.unplaced_eq isToken' heads, leftSame first' lefts,
            rightSame second' rights]
      | logical isToken' isConnective' _ _ =>
          rw [← isToken.kind_eq isToken' (Form.two.inj same).1] at isConnective'
          exact absurd isConnective' (binaryNoAssign _ isOperator).2
      | assign _ _ _ =>
          exact absurd (Form.two.inj same).1.symm
            (assign_ne_lexeme isToken (binaryNoAssign _ isOperator).1)
      | _ => cases same
  | logical isToken isConnective _ _ leftSame rightSame =>
      cases spelled' with
      | binary isToken' isOperator' _ _ =>
          rw [← isToken.kind_eq isToken' (Form.two.inj same).1] at isOperator'
          exact absurd isOperator' (connectiveNoAssign _ isConnective).2
      | logical isToken' isConnective' first' second' =>
          obtain ⟨heads, lefts, rights⟩ := Form.two.inj same
          rw [unplaced, unplaced, isToken.unplaced_eq isToken' heads, leftSame first' lefts,
            rightSame second' rights]
      | assign _ _ _ =>
          exact absurd (Form.two.inj same).1.symm
            (assign_ne_lexeme isToken (connectiveNoAssign _ isConnective).1)
      | _ => cases same
  | assign isToken isName _ valueSame =>
      cases spelled' with
      | binary isToken' isOperator' _ _ =>
          exact absurd (Form.two.inj same).1
            (assign_ne_lexeme isToken' (binaryNoAssign _ isOperator').1)
      | logical isToken' isConnective' _ _ =>
          exact absurd (Form.two.inj same).1
            (assign_ne_lexeme isToken' (connectiveNoAssign _ isConnective').1)
      | assign isToken' isName' part' =>
          obtain ⟨_, names, values⟩ := Form.two.inj same
          rw [unplaced, unplaced, isToken.unplaced_eq isToken' (Form.atom.inj names),
            valueSame part' values]
      | _ => cases same

theorem Spelled.fold_grouping {inner : Expr} (part : inner.Spelled) :
    (foldGrouping inner).Spelled := by
  unfold foldGrouping
  split
  · exact part
  · exact .grouping part

theorem Spelled.fold_unary {op : Token} {right : Expr} (isToken : IsToken op)
    (isSign : op.kind ∈ signKinds) (part : right.Spelled) : (foldUnary op right).Spelled := by
  unfold foldUnary
  split
  · split
    · exact .literal (fun absent => nomatch absent)
    · exact .unary isToken isSign part
  · exact .unary isToken isSign part

theorem Spelled.fold_binary {left right : Expr} {op : Token} (isToken : IsToken op)
    (isOperator : op.kind ∈ binaryKinds) (first : left.Spelled) (second : right.Spelled) :
    (foldBinary left op right).Spelled := by
  unfold foldBinary
  split
  · split
    · exact .literal (fun absent => nomatch absent)
    · exact .binary isToken isOperator first second
  · exact .binary isToken isOperator first second

/-- Folding makes literals only of numbers. -/
theorem Spelled.fold {expr : Expr} (spelled : expr.Spelled) : expr.fold.Spelled := by
  induction spelled with
  | literal present => exact .literal present
  | reference isToken isName => exact .reference isToken isName
  | grouping _ inner => exact inner.fold_grouping
  | unary isToken isSign _ right => exact .fold_unary isToken isSign right
  | binary isToken isOperator _ _ left right => exact .fold_binary isToken isOperator left right
  | logical isToken isConnective _ _ left right => exact .logical isToken isConnective left right
  | assign isToken isName _ value => exact .assign isToken isName value

end Expr

namespace Grammar

theorem constant_present {token : Token} (isToken : IsToken token)
    (isConstant : token.kind ∈ [TokenKind.number, .string, .trueWord, .falseWord]) :
    constantValue token ≠ .absent := by
  unfold constantValue
  split
  · exact fun absent => nomatch absent
  · rename_i noTrue
    split
    · exact fun absent => nomatch absent
    · rename_i noFalse
      obtain ⟨pattern, _, means⟩ := isToken
      have table : ∀ entries ∈ [operators, TokenKind.keywords], ∀ entry ∈ entries,
          entry.2 ∉ [TokenKind.number, .string] := by decide +kernel
      have isLiteral : token.kind ∈ [TokenKind.number, .string] := by
        simpa [noTrue, noFalse] using isConstant
      generalize token.lexeme = lexeme at means
      generalize token.kind = kind at isLiteral means
      generalize token.literal = literal at means ⊢
      cases means with
      | operator listed => exact absurd isLiteral (table _ (by simp) _ listed)
      | keyword listed => exact absurd isLiteral (table _ (by simp) _ listed)
      | identifier => exact absurd isLiteral (by decide)
      | number => exact fun absent => nomatch absent
      | text => exact fun absent => nomatch absent

theorem phrase_spelled {symbol : Symbol} (phrase : Phrase symbol)
    (tokens : ∀ token ∈ phrase.tokens, IsToken token) : phrase.tree.Spelled := by
  induction phrase with
  | assign name op value isName _ valueSpelled =>
      simp only [Phrase.tokens, List.forall_mem_cons] at tokens
      exact .assign tokens.1 isName (valueSpelled tokens.2.2)
  | single operand _ operandSpelled => exact operandSpelled tokens
  | @round symbol before op last isOperator beforeSpelled lastSpelled =>
      simp only [Phrase.tokens, List.forall_mem_append, List.forall_mem_cons] at tokens
      obtain ⟨inBefore, isToken, inLast⟩ := tokens
      have first := beforeSpelled inBefore
      have second := lastSpelled inLast
      have connectives : ∀ symbol ∈ [Symbol.or, .xor, .and], ∀ kind ∈ symbol.repeated,
          kind ∈ connectiveKinds := by decide
      have operators : ∀ symbol ∈ [Symbol.equality, .comparison, .additive, .multiplicative],
          ∀ kind ∈ symbol.repeated, kind ∈ binaryKinds := by decide
      cases symbol with
      | or | xor | and =>
          exact .logical isToken (connectives _ (by decide) _ isOperator) first second
      | equality | comparison | additive | multiplicative =>
          exact .binary isToken (operators _ (by decide) _ isOperator) first second
      | assignment | implication | unary | primary => cases isOperator
  | imply left op right isOperator leftSpelled rightSpelled =>
      simp only [Phrase.tokens, List.forall_mem_append, List.forall_mem_cons] at tokens
      have connectives : ∀ kind ∈ [TokenKind.imp, .nimp], kind ∈ connectiveKinds := by decide
      exact .logical tokens.2.1 (connectives _ isOperator) (leftSpelled tokens.1)
        (rightSpelled tokens.2.2)
  | signed op operand isOperator operandSpelled =>
      simp only [Phrase.tokens, List.forall_mem_cons] at tokens
      exact .unary tokens.1 isOperator (operandSpelled tokens.2)
  | constant token isConstant =>
      exact .literal (constant_present (tokens token (by simp [Phrase.tokens])) isConstant)
  | reference token isName => exact .reference (tokens token (by simp [Phrase.tokens])) isName
  | group opening inner closing _ _ innerSpelled =>
      simp only [Phrase.tokens, List.forall_mem_cons, List.forall_mem_append] at tokens
      exact .grouping (innerSpelled tokens.2.1)

end Grammar

/-- A tree that is read off the front of a source without lexical errors, as it stands or folded. -/
def Expr.IsSourceTree (expr : Expr) : Prop :=
  ∃ source tree, (lex source).errors = [] ∧ parseExpression (lex source).tokens = .ok tree ∧
    (expr = tree ∨ expr = tree.fold)

theorem spelled_of_source {source : Bytes} {tree : Expr}
    (read : parseExpression (lex source).tokens = .ok tree) : tree.Spelled := by
  rw [parseExpression, Grammar.split_at_end_words] at read
  dsimp only at read
  split at read
  · rename_i expr rest shorter parsed
    obtain rfl := Except.ok.inj read
    have outcome := congrArg ParseStep.outcome parsed
    obtain ⟨phrase, rfl, taken⟩ :=
      Grammar.sound (Grammar.words (lex source).tokens) .assignment (by simp) expr rest outcome
    apply Grammar.phrase_spelled
    intro token member
    have inWords : token ∈ Grammar.words (lex source).tokens := by
      rw [← taken]
      exact List.mem_append_left _ member
    apply words_are_tokens
    rw [List.mem_filter, decide_eq_true_eq]
    exact ⟨(List.takeWhile_sublist _).subset inWords, Grammar.words_no_end _ token inWords⟩
  · cases read

theorem Expr.IsSourceTree.spelled {expr : Expr} (ofSource : expr.IsSourceTree) : expr.Spelled := by
  obtain ⟨source, tree, _, read, rfl | rfl⟩ := ofSource
  · exact spelled_of_source read
  · exact (spelled_of_source read).fold

/-- Trees of sources have the same text just if they are the same up to the places of their
tokens. -/
theorem text_tells_tree {left right : Expr} (ofSource : left.IsSourceTree)
    (ofSource' : right.IsSourceTree) :
    left.text = right.text ↔ left.unplaced = right.unplaced := by
  constructor
  · intro same
    have texts : left.form.text ++ [] = right.form.text ++ [] := by
      rw [Expr.text_form, Expr.text_form, same]
    have noneBehind : Form.Ends [] := fun _ member => nomatch member
    obtain ⟨forms, _⟩ := Form.forms_apart ofSource.spelled.legible ofSource'.spelled.legible
      noneBehind noneBehind texts
    exact Expr.unplaced_of_form ofSource.spelled ofSource'.spelled forms
  · intro same
    rw [← Expr.text_unplaced left, same, Expr.text_unplaced]

def foldedFront (source : Bytes) : Expr :=
  ((parseExpression (lex source).tokens).toOption.getD .absent).fold

/-- The negation of a product and a number below zero fold to the same literal, on whatever lines
they stand. -/
theorem negated_product_told :
    let product := foldedFront (utf8 "x := a - -(2 * 3) and \"b (c\"")
    let number := foldedFront (utf8 "\nx := a\n - (-6) and \"b (c\"")
    product.text = utf8 "(:= x (and (- a -6) \"b (c\"))" ∧ product.text = number.text ∧
      product ≠ number ∧ product.unplaced = number.unplaced := by
  have ofSource (source : Bytes) (clean : (lex source).errors = [])
      (reads : (parseExpression (lex source).tokens).toOption ≠ none) :
      (foldedFront source).IsSourceTree := by
    cases read : parseExpression (lex source).tokens with
    | error error =>
        rw [read] at reads
        exact absurd rfl reads
    | ok tree => exact ⟨source, tree, clean, read, .inr (by rw [foldedFront, read]; rfl)⟩
  have alike := text_tells_tree
    (ofSource (utf8 "x := a - -(2 * 3) and \"b (c\"") (by decide +kernel) (by decide +kernel))
    (ofSource (utf8 "\nx := a\n - (-6) and \"b (c\"") (by decide +kernel) (by decide +kernel))
  refine ⟨by decide +kernel, by decide +kernel, by decide +kernel, alike.mp (by decide +kernel)⟩

end ExprCompiler
