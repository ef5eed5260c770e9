import ExprCompiler.Proofs.Charset.Common
import ExprCompiler.Proofs.Codegen.Compiled
import ExprCompiler.Proofs.Codegen.Reload

/-!
Sums that are nested to the right, `1+(1+(…))`, to any depth. Their code pushes all ones before it
adds the first two of them, so it takes as much of the stack as one likes.
-/

namespace ExprCompiler

def nestedSum : Nat → Bytes
  | 0 => [0x31]
  | depth + 1 => 0x31 :: 0x2b :: 0x28 :: (nestedSum depth ++ [0x29])

def nestedPieces : Nat → List Piece
  | 0 => [.number [0x31]]
  | depth + 1 =>
      .number [0x31] :: .operator .plus [0x2b] :: .operator .leftParen [0x28] ::
        (nestedPieces depth ++ [.operator .rightParen [0x29]])

section Lexing

theorem pieces_one {rest : Bytes} (stops : ∀ byte ∈ rest.head?, Piece.isNumberPart byte = false) :
    pieces (0x31 :: rest) = .number [0x31] :: pieces rest := by
  have digits : rest.takeWhile Piece.isNumberPart = [] := by
    cases rest with
    | nil => rfl
    | cons byte rest => rw [List.takeWhile_cons, stops byte (by simp)]; rfl
  have first : Piece.first 0x31 rest = .number [0x31] := by
    have number : Piece.first 0x31 rest = .number (0x31 :: rest.takeWhile Piece.isNumberPart) := rfl
    rw [number, digits]
  rw [pieces, first]
  rfl

theorem pieces_operator {byte : UInt8} {kind : TokenKind} {rest : Bytes}
    (first : Piece.first byte rest = .operator kind [byte]) :
    pieces (byte :: rest) = .operator kind [byte] :: pieces rest := by
  rw [pieces, first]
  rfl

theorem pieces_nested (depth : Nat) {rest : Bytes}
    (stops : ∀ byte ∈ rest.head?, Piece.isNumberPart byte = false) :
    pieces (nestedSum depth ++ rest) = nestedPieces depth ++ pieces rest := by
  induction depth generalizing rest with
  | zero => exact pieces_one stops
  | succ depth induction =>
      have split : nestedSum (depth + 1) ++ rest =
          0x31 :: 0x2b :: 0x28 :: (nestedSum depth ++ 0x29 :: rest) := by
        simp [nestedSum]
      rw [split, pieces_one (by simp; decide), @pieces_operator _ .plus _ rfl,
        @pieces_operator _ .leftParen _ rfl, induction (by simp; decide),
        @pieces_operator _ .rightParen _ rfl]
      simp [nestedPieces]

theorem errors_nested (depth : Nat) (cursor : Cursor) (rest : List Piece) :
    ∃ later, errorsFrom cursor (nestedPieces depth ++ rest) = errorsFrom later rest := by
  induction depth generalizing cursor rest with
  | zero => exact ⟨_, rfl⟩
  | succ depth induction =>
      obtain ⟨inner, same⟩ := induction
        (((cursor.advance (.number [0x31])).advance (.operator .plus [0x2b])).advance
          (.operator .leftParen [0x28])) (.operator .rightParen [0x29] :: rest)
      refine ⟨inner.advance (.operator .rightParen [0x29]), ?_⟩
      rw [nestedPieces, List.cons_append, List.cons_append, List.cons_append, List.append_assoc]
      exact same

end Lexing

inductive IsNestedSum : Nat → Expr → Prop where
  | one : IsNestedSum 0 (.literal (.int 1))
  | more {depth : Nat} {op : Token} {inner : Expr} (isPlus : op.kind = .plus)
      (later : IsNestedSum depth inner) :
      IsNestedSum (depth + 1) (.binary (.literal (.int 1)) op (.grouping inner))

section Parsing

open Grammar

theorem factor (primary : Phrase .primary) :
    ∃ operand : Phrase .multiplicative, operand.tree = primary.tree ∧
      operand.tokens = primary.tokens :=
  ⟨@Phrase.single .multiplicative (@Phrase.single .unary primary (by decide)) (by decide), rfl, rfl⟩

theorem number_factor {token : Token} (isNumber : token.kind = .number) :
    ∃ operand : Phrase .multiplicative, operand.tree = .literal token.literal ∧
      operand.tokens = [token] := by
  obtain ⟨operand, tree, tokens⟩ := factor (.constant token (by simp [isNumber]))
  refine ⟨operand, ?_, tokens⟩
  simp [tree, Phrase.tree, constantValue, isNumber]

theorem whole_sum (sum : Phrase .additive) :
    ∃ whole : Phrase .assignment, whole.tree = sum.tree ∧ whole.tokens = sum.tokens :=
  ⟨@Phrase.single .assignment (@Phrase.single .equality (@Phrase.single .comparison
    (@Phrase.single .implication (@Phrase.single .or (@Phrase.single .xor (@Phrase.single .and sum
      (by decide)) (by decide)) (by decide)) (by decide)) (by decide)) (by decide)) (by decide),
    rfl, rfl⟩

theorem one_token (cursor : Cursor) : ∃ token, (Piece.number [0x31]).token? cursor = some token ∧
    token.kind = .number ∧ token.literal = .int 1 :=
  ⟨_, rfl, rfl, rfl⟩

theorem operator_token (kind : TokenKind) (text : Bytes) (cursor : Cursor) :
    ∃ token, (Piece.operator kind text).token? cursor = some token ∧ token.kind = kind :=
  ⟨_, rfl, rfl⟩

/-- The tokens of a nested sum are derived by the grammar, wherever they stand. -/
theorem derives_nested (depth : Nat) (cursor : Cursor) (rest : List Piece) :
    ∃ (sum : Phrase .additive) (later : Cursor), IsNestedSum depth sum.tree ∧
      tokensFrom cursor (nestedPieces depth ++ rest) = sum.tokens ++ tokensFrom later rest := by
  induction depth generalizing cursor rest with
  | zero =>
      obtain ⟨one, given, isNumber, value⟩ := one_token cursor
      obtain ⟨operand, tree, tokens⟩ := number_factor isNumber
      refine ⟨@Phrase.single .additive operand (by decide), cursor.advance (.number [0x31]), ?_, ?_⟩
      · change IsNestedSum 0 operand.tree
        rw [tree, value]
        exact .one
      · rw [nestedPieces, List.singleton_append, tokensFrom, given]
        change one :: _ = operand.tokens ++ _
        rw [tokens]
        rfl
  | succ depth induction =>
      obtain ⟨one, oneGiven, isNumber, value⟩ := one_token cursor
      let first := cursor.advance (.number [0x31])
      obtain ⟨plus, plusGiven, isPlus⟩ := operator_token .plus [0x2b] first
      let second := first.advance (.operator .plus [0x2b])
      obtain ⟨opening, openGiven, opens⟩ := operator_token .leftParen [0x28] second
      obtain ⟨inner, last, isSum, tokens⟩ := induction
        (second.advance (.operator .leftParen [0x28])) (.operator .rightParen [0x29] :: rest)
      obtain ⟨closing, closeGiven, closes⟩ := operator_token .rightParen [0x29] last
      obtain ⟨left, leftTree, leftTokens⟩ := number_factor isNumber
      obtain ⟨whole, wholeTree, wholeTokens⟩ := whole_sum inner
      obtain ⟨right, rightTree, rightTokens⟩ := factor (.group opening whole closing opens closes)
      refine ⟨@Phrase.round .additive (@Phrase.single .additive left (by decide)) plus right
        (by simp [isPlus, Symbol.repeated]), last.advance (.operator .rightParen [0x29]), ?_, ?_⟩
      · change IsNestedSum (depth + 1) (.binary left.tree plus right.tree)
        rw [leftTree, value, rightTree, Phrase.tree, wholeTree]
        exact .more isPlus isSum
      · rw [nestedPieces, List.cons_append, List.cons_append, List.cons_append, tokensFrom,
          tokensFrom, tokensFrom, List.append_assoc, List.singleton_append, tokens, tokensFrom,
          oneGiven, plusGiven, openGiven, closeGiven]
        change one :: plus :: opening :: (inner.tokens ++ closing :: _) =
          left.tokens ++ plus :: right.tokens ++ _
        simp [Phrase.tokens, leftTokens, rightTokens, wholeTokens]

theorem nested_has_tree (depth : Nat) :
    ∃ tree, HasTree (nestedSum depth) tree ∧ IsNestedSum depth tree := by
  have parts : pieces (nestedSum depth) = nestedPieces depth := by
    have whole := @pieces_nested depth [] (by simp)
    rwa [List.append_nil, pieces, List.append_nil] at whole
  obtain ⟨sum, later, isSum, tokens⟩ := derives_nested depth {} []
  obtain ⟨whole, wholeTree, wholeTokens⟩ := whole_sum sum
  obtain ⟨_, errors⟩ := errors_nested depth {} []
  rw [List.append_nil] at tokens errors
  rw [tokensFrom, List.append_nil] at tokens
  refine ⟨sum.tree, ⟨?_, ?_⟩, isSum⟩
  · rw [lex]
    dsimp only
    rw [parts, errors]
    rfl
  · have noEnd : ∀ token ∈ sum.tokens, token.kind ≠ .eof := by
      intro token member
      rw [← tokens, ← parts] at member
      exact (tokens_from_shaped (pieces_shaped _) token member).1
    rw [lex]
    dsimp only
    rw [parts, tokens, parse, split_at_end _ noEnd rfl]
    rw [← wholeTokens, ← wholeTree]
    exact statements_complete (.last whole (.endOfInput 0) rfl)

end Parsing

section Code

variable {depth : Nat} {tree : Expr}

theorem nested_arithmetic (isSum : IsNestedSum depth tree) : tree.Arithmetic [] := by
  induction isSum with
  | one => exact .literal 1
  | more isPlus _ inner =>
      apply Expr.Arithmetic.binary _ (.literal 1) (.grouping inner)
      rw [isPlus]
      rfl

theorem nested_names (isSum : IsNestedSum depth tree) : tree.nameList = [] := by
  induction isSum with
  | one => rfl
  | more _ _ inner => rw [Expr.nameList, Expr.nameList, Expr.nameList, inner]; rfl

theorem nested_code (isSum : IsNestedSum depth tree) (mode : DivisionMode) :
    ∃ rest, tree.code mode =
      List.replicate (depth + 1) (Line.op .push [.immediate 1]) ++ rest := by
  induction isSum with
  | one => exact ⟨[], rfl⟩
  | @more depth op inner _ _ induction =>
      obtain ⟨rest, code⟩ := induction
      rw [Expr.code_binary, Expr.code, Expr.code, code, List.replicate_succ]
      refine ⟨rest ++ (Line.pop .ebx :: Line.pop .eax ::
        (operatorLines mode op.kind ++ [Line.push .eax])), ?_⟩
      rw [List.cons_append, List.append_assoc]
      rfl

theorem nested_tree_names (isSum : IsNestedSum depth tree) : tree.names = [] := by
  rw [Expr.names, nested_names isSum]
  rfl

theorem nested_compiled (depth : Nat) :
    ∃ output, compile { fold := false, peephole := false } (nestedSum depth) = .ok output ∧
      IsNestedSum depth output.folded ∧ output.variableNames = [] ∧
      readListing output.assembly.bytes = .ok (generatedProgram (programCode
        { peephole := false } output.variableNames output.folded) output.variableNames) := by
  obtain ⟨tree, hasTree, isSum⟩ := nested_has_tree depth
  have names := nested_tree_names isSum
  have arithmetic := nested_arithmetic isSum
  rw [← names] at arithmetic
  have identifiers : ∀ name ∈ tree.names, IsIdentifier name := by simp [names]
  have generated := @generate_of_keeps_plain tree.names tree { peephole := false } _ identifiers
    (Expr.supported_of_arithmetic arithmetic) (CharsetRegistry.resolve_canonical .utf8)
    CommonCharset.utf8_keeps_plain
  exact ⟨_, @compile_of_tree { fold := false, peephole := false } _ _ _ hasTree generated, isSum,
    names, read_listing_text identifiers (by simp [names]) arithmetic⟩

end Code

section Pushing

variable {image : Image} {core : Core}

theorem perform_ones (count : Nat) (room : 4 * count ≤ core.top)
    (inside : core.top ≤ core.memory.size) :
    ∃ after, image.performAll (List.replicate count (Line.op .push [.immediate 1])) core =
        ⟨after, none⟩ ∧ after.top + 4 * count = core.top ∧
      after.memory.size = core.memory.size ∧
      (0 < count → after.memory.load after.registers.esp = 1) := by
  induction count with
  | zero => exact ⟨core, rfl, rfl, rfl, fun some => absurd some (by decide)⟩
  | succ count induction =>
      obtain ⟨before, pushed, top, size, _⟩ := induction (by omega)
      have loaded : image.load before (.immediate 1) = .ok 1 := rfl
      have last := @perform_push image before _ _ loaded (by omega) (by omega)
      have lastTop := @Core.top_pushed before (by omega) 1
      refine ⟨before.pushed 1, ?_, by omega, (Core.size_pushed 1).trans size, ?_⟩
      · rw [List.replicate_succ', Image.perform_all_append, pushed]
        exact Image.perform_all_cons last []
      · intro _
        exact Core.load_pushed (by omega) (by omega) 1

end Pushing

end ExprCompiler
