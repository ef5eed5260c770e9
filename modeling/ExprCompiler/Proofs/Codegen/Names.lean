import ExprCompiler.Compile
import ExprCompiler.Proofs.Assembly.Operand
import ExprCompiler.Proofs.Grammar.Program
import ExprCompiler.Proofs.Text.SortedSet

/-!
Where the names of a program come from. A name of a tree is the text of an identifier token, and
the texts of identifier tokens are words of the source. The labels made from them are symbols.
-/

namespace ExprCompiler

structure IsIdentifier (name : Bytes) : Prop where
  starts : ∃ first rest, name = first :: rest ∧ Piece.isWordStart first = true
  parts : ∀ byte ∈ name, Piece.isWordPart byte = true

theorem symbol_of_word {word name : Bytes} (start : IsSymbol word)
    (parts : ∀ byte ∈ name, Piece.isWordPart byte = true) : IsSymbol (word ++ name) where
  parts := by
    intro byte member
    rcases List.mem_append.mp member with inWord | inName
    · exact start.parts byte inWord
    · exact parts byte inName
  starts := by
    obtain ⟨first, rest, rfl⟩ := List.exists_cons_of_ne_nil start.ne_nil
    exact start.starts
  long := by
    rw [List.length_append]
    exact Nat.lt_of_lt_of_le start.long (Nat.le_add_right _ _)

instance (name : Bytes) : Decidable (IsSymbol name) :=
  decidable_of_iff ((∀ byte ∈ name, Piece.isWordPart byte = true) ∧
    (∀ byte ∈ name.head?, Text.isAsciiLetter byte.toNat = true) ∧ 3 < name.length)
    ⟨fun ⟨parts, starts, long⟩ => ⟨parts, starts, long⟩,
      fun symbol => ⟨symbol.parts, symbol.starts, symbol.long⟩⟩

theorem variable_label_symbol {name : Bytes} (identifier : IsIdentifier name) :
    IsSymbol (variableLabel name) :=
  symbol_of_word (by decide) identifier.parts

theorem prompt_label_symbol {name : Bytes} (identifier : IsIdentifier name) :
    IsSymbol (promptLabel name) :=
  symbol_of_word (by decide) identifier.parts

namespace Piece

def isOperatorKind (kind : TokenKind) : Bool := kind != .identifier && kind != .eof

/-- What the pieces of a source have in common: words are identifiers, and no operator passes for
an identifier or an end mark. -/
def Shaped : Piece → Prop
  | word text => IsIdentifier text
  | operator kind _ => isOperatorKind kind = true
  | _ => True

theorem identifier_of_word_start {byte : UInt8} (start : isWordStart byte = true) (rest : Bytes) :
    IsIdentifier (byte :: rest.takeWhile isWordPart) where
  starts := ⟨byte, _, rfl, start⟩
  parts := by
    intro other member
    rcases List.mem_cons.mp member with rfl | inRest
    · rw [isWordPart, start]
      rfl
    · exact List.all_eq_true.mp List.all_takeWhile other inRest

theorem long_operator_kind {byte : UInt8} {kind : TokenKind}
    (found : longOperator? byte = some kind) : isOperatorKind kind = true := by
  have checked := @forall_byte (fun byte => (longOperator? byte).all isOperatorKind)
    (by decide +kernel) byte
  rwa [found] at checked

theorem short_operator_kind {byte : UInt8} {kind : TokenKind}
    (found : shortOperator? byte = some kind) : isOperatorKind kind = true := by
  have checked := @forall_byte (fun byte => (shortOperator? byte).all isOperatorKind)
    (by decide +kernel) byte
  rwa [found] at checked

theorem operator_shaped {byte : UInt8} {rest : Bytes} {piece : Piece}
    (found : operator? byte rest = some piece) : piece.Shaped := by
  unfold operator? at found
  split at found
  · rename_i kind _ long
    cases found
    exact long_operator_kind long
  · obtain ⟨kind, short, rfl⟩ := Option.map_eq_some_iff.mp found
    exact short_operator_kind short

theorem first_shaped (byte : UInt8) (rest : Bytes) : (first byte rest).Shaped := by
  unfold first
  split
  · rename_i start
    exact identifier_of_word_start start rest
  · split
    · trivial
    · split
      · unfold afterQuote
        split <;> trivial
      · split
        · trivial
        · split
          · trivial
          · cases found : operator? byte rest with
            | none => trivial
            | some piece => exact operator_shaped found

end Piece

theorem pieces_shaped (source : Bytes) : ∀ piece ∈ pieces source, piece.Shaped := by
  fun_induction pieces source with
  | case1 => simp
  | case2 byte rest induction =>
      intro piece member
      rcases List.mem_cons.mp member with rfl | later
      · exact Piece.first_shaped byte rest
      · exact induction piece later

theorem word_kind_ne_eof (word : Bytes) : TokenKind.ofWord word ≠ .eof := by
  unfold TokenKind.ofWord
  cases found : TokenKind.keywords.find? fun entry => utf8 entry.1 == word with
  | none => simp
  | some entry =>
      have kinds : ∀ entry ∈ TokenKind.keywords, entry.2 ≠ .eof := by decide
      exact kinds entry (List.mem_of_find?_eq_some found)

theorem token_of_shaped {cursor : Cursor} {piece : Piece} {token : Token} (shaped : piece.Shaped)
    (given : piece.token? cursor = some token) :
    token.kind ≠ .eof ∧ (token.kind = .identifier → IsIdentifier token.lexeme) := by
  cases piece with
  | word text =>
      cases given
      exact ⟨word_kind_ne_eof text, fun _ => shaped⟩
  | number text =>
      obtain ⟨value, _, rfl⟩ := Option.map_eq_some_iff.mp given
      exact ⟨by simp, by simp⟩
  | quoted content =>
      cases given
      exact ⟨by simp, by simp⟩
  | operator kind text =>
      cases given
      simp only [Piece.Shaped, Piece.isOperatorKind, Bool.and_eq_true, bne_iff_ne] at shaped
      exact ⟨shaped.2, fun same => absurd same shaped.1⟩
  | _ => cases given

theorem tokens_from_shaped {cursor : Cursor} {parts : List Piece}
    (shaped : ∀ piece ∈ parts, piece.Shaped) : ∀ token ∈ tokensFrom cursor parts,
      token.kind ≠ .eof ∧ (token.kind = .identifier → IsIdentifier token.lexeme) := by
  induction parts generalizing cursor with
  | nil => simp [tokensFrom]
  | cons piece parts induction =>
      intro token member
      rw [tokensFrom, List.mem_append, Option.mem_toList] at member
      rcases member with here | later
      · exact token_of_shaped (shaped piece (by simp)) here
      · exact induction (fun other inParts => shaped other (by simp [inParts])) token later

namespace Grammar

theorem phrase_names {symbol : Symbol} (phrase : Phrase symbol) :
    ∀ name ∈ phrase.tree.nameList, ∃ token ∈ phrase.tokens,
      token.kind = .identifier ∧ token.lexeme = name := by
  have weaken {small large : List Token} {name : Bytes} (within : ∀ token ∈ small, token ∈ large)
      (found : ∃ token ∈ small, token.kind = .identifier ∧ token.lexeme = name) :
      ∃ token ∈ large, token.kind = .identifier ∧ token.lexeme = name := by
    obtain ⟨token, inSmall, isName, text⟩ := found
    exact ⟨token, within token inSmall, isName, text⟩
  induction phrase with
  | assign target op value isName _ valueNames =>
      intro name member
      rcases List.mem_cons.mp member with rfl | inValue
      · exact ⟨target, by simp [Phrase.tokens], isName, rfl⟩
      · exact weaken (by simp +contextual [Phrase.tokens]) (valueNames name inValue)
  | single operand _ operandNames => exact operandNames
  | @round symbol before op last _ beforeNames lastNames =>
      intro name member
      have names : (symbol.node before.tree op last.tree).nameList =
          before.tree.nameList ++ last.tree.nameList := by
        cases symbol <;> rfl
      rw [Phrase.tree, names, List.mem_append] at member
      rcases member with inBefore | inLast
      · exact weaken (by simp +contextual [Phrase.tokens]) (beforeNames name inBefore)
      · exact weaken (by simp +contextual [Phrase.tokens]) (lastNames name inLast)
  | imply left op right _ leftNames rightNames =>
      intro name member
      rcases List.mem_append.mp member with inLeft | inRight
      · exact weaken (by simp +contextual [Phrase.tokens]) (leftNames name inLeft)
      · exact weaken (by simp +contextual [Phrase.tokens]) (rightNames name inRight)
  | signed op operand _ operandNames =>
      intro name member
      exact weaken (by simp +contextual [Phrase.tokens]) (operandNames name member)
  | constant token _ => simp [Phrase.tree, Expr.nameList]
  | reference token isName =>
      intro name member
      rw [List.mem_singleton.mp member]
      exact ⟨token, by simp [Phrase.tokens], isName, rfl⟩
  | group opening inner closing _ _ innerNames =>
      intro name member
      exact weaken (by simp +contextual [Phrase.tokens]) (innerNames name member)

theorem statement_names (statements : Statements) :
    ∀ tree ∈ statements.trees, ∀ name ∈ tree.nameList, ∃ token ∈ statements.words,
      token.kind = .identifier ∧ token.lexeme = name := by
  induction statements with
  | done => simp [Statements.trees]
  | last expr mark _ =>
      intro tree member name inTree
      rw [List.mem_singleton.mp member] at inTree
      exact phrase_names expr name inTree
  | next expr semicolon rest _ restNames =>
      intro tree member name inTree
      rcases List.mem_cons.mp member with rfl | inRest
      · obtain ⟨token, inWords, found⟩ := phrase_names expr name inTree
        exact ⟨token, by simp [Statements.words, inWords], found⟩
      · obtain ⟨token, inWords, found⟩ := restNames tree inRest name inTree
        exact ⟨token, by simp [Statements.words, inWords], found⟩

end Grammar

/-- The names of what is read from a source are identifiers. -/
theorem names_of_source {source : Bytes} {trees : List Expr}
    (read : parse (lex source).tokens = ⟨trees, []⟩) :
    ∀ tree ∈ trees, ∀ name ∈ tree.nameList, IsIdentifier name := by
  have shaped := @tokens_from_shaped {} _ (pieces_shaped source)
  rw [lex, parse, Grammar.split_at_end _ (fun token member => (shaped token member).1) rfl] at read
  obtain ⟨statements, words, rfl⟩ := Grammar.statements_sound rfl _ _ read
  intro tree member name inTree
  obtain ⟨token, inWords, isName, rfl⟩ := Grammar.statement_names statements tree member name inTree
  rw [Grammar.statements_tokens] at words
  rw [List.append_inj_left' words rfl] at inWords
  exact (shaped token inWords).2 isName

end ExprCompiler
