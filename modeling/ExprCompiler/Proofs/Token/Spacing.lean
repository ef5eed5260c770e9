import ExprCompiler.Proofs.Token.Margins
import ExprCompiler.Proofs.Token.Places

/-!
Spacing. The lexemes of a source can be set out anew, with any white space between them. A match
goes no further than its lexeme when white space follows it, so the new text is read as the same
tokens at other places.
-/

namespace ExprCompiler

open Lexicon

def IsWhite (gap : Bytes) : Prop := ∀ byte ∈ gap, byte = lineBreak ∨ byte ∈ blanks

instance (gap : Bytes) : Decidable (IsWhite gap) := inferInstanceAs (Decidable (∀ _ ∈ _, _))

/-- White space for some lexemes: a gap in front of them all, and a gap behind each of them. Only
the last one may have an empty gap behind it. -/
structure Layout (lexemes : List Bytes) where
  front : Bytes
  gaps : List Bytes
  count : gaps.length = lexemes.length
  whiteFront : IsWhite front
  white : ∀ gap ∈ gaps, IsWhite gap
  apart : ∀ gap ∈ gaps.dropLast, gap ≠ []

def spaced (lexemes gaps : List Bytes) : Bytes := (List.zipWith (· ++ ·) lexemes gaps).flatten

def Layout.text {lexemes : List Bytes} (layout : Layout lexemes) : Bytes :=
  layout.front ++ spaced lexemes layout.gaps

def lexemes (source : Bytes) : List Bytes :=
  ((lex source).tokens.filter (·.kind ≠ .eof)).map Token.lexeme

namespace Lexicon

variable {before rest : Bytes} {pattern : Pattern} {lexeme : Bytes}

theorem hidden_of_white {gap : Bytes} (white : IsWhite gap) : ∀ byte ∈ gap, ¬IsVisible byte := by
  intro byte member visible
  rcases white byte member with isBreak | isBlank
  · exact visible.1 isBreak
  · exact visible.2 isBlank

/-- White space ends every match. -/
theorem longest_before_gap (matched : Matches pattern lexeme)
    (gap : ∀ byte ∈ rest.head?, ¬IsVisible byte) : Longest (lexeme ++ rest) pattern lexeme where
  matched := matched
  front := List.prefix_append lexeme rest
  longest := by
    intro other longer matched' begins
    have front := List.prefix_append lexeme rest
    obtain ⟨first, later, rfl, _⟩ := matches_start matched
    obtain rfl := Piece.same_pattern matched matched' begins
    by_cases isText : other = .text
    · -- A text goes on to its second quote and no further, whatever stands behind it.
      subst isText
      generalize whole : first :: later = lexeme at *
      cases matched with
      | text parts =>
          have closes := (Piece.quote_closes (Matches.text parts) front).1
          have closes' := (Piece.quote_closes matched' begins).1
          exact Nat.le_of_eq (congrArg List.length (closes'.trans closes.symm))
    · rcases List.prefix_or_prefix_of_prefix begins front with shorter | ⟨left, rfl⟩
      · exact shorter.length_le
      · cases left with
        | nil => simp
        | cons byte left =>
            obtain ⟨behind, rfl⟩ := (List.prefix_append_right_inj _).mp begins
            have visible := (matches_plain matched' isText byte (by simp)).2
            exact absurd visible (gap byte rfl)

/-- A run of blanks ends in front of what is visible. -/
theorem blanks_end (ends : ∀ byte ∈ rest.head?, IsVisible byte) (more : Bytes) :
    ∀ byte ∈ (more.dropWhile Piece.isBlank ++ rest).head?, byte ∉ blanks := by
  intro byte member
  have stops := List.head?_dropWhile_not Piece.isBlank more
  cases left : more.dropWhile Piece.isBlank with
  | nil =>
      rw [left] at member
      exact (ends byte member).2
  | cons first left' =>
      rw [left, List.head?_cons] at stops
      rw [left] at member
      obtain rfl : first = byte := Option.some.inj member
      rw [mem_blanks, stops]
      exact Bool.false_ne_true

theorem reads_behind_gap {gap : Bytes} {tokens : List Token} {errors : List LexError}
    (white : IsWhite gap) (ends : ∀ byte ∈ rest.head?, IsVisible byte)
    (later : Reads (before ++ gap) rest tokens errors) : Reads before (gap ++ rest) tokens errors := by
  induction size : gap.length using Nat.strongRecOn generalizing gap before with
  | ind size shorter =>
      cases gap with
      | nil => rwa [List.append_nil] at later
      | cons byte more =>
          rw [List.length_cons] at size
          rcases white byte (by simp) with rfl | isBlank
          · rw [List.append_cons] at later
            apply Reads.round (.passed .lineBreak)
            apply shorter more.length (by omega) _ later rfl
            exact fun other member => white other (by simp [member])
          · have all := Piece.all_run ((mem_blanks byte).mp isBlank) more
            have split := Piece.run_split Piece.isBlank byte more
            have fewer := (List.dropWhile_suffix (l := more) Piece.isBlank).length_le
            have inGap : ∀ other ∈ more.dropWhile Piece.isBlank, other ∈ byte :: more := by
              intro other member
              rw [split]
              exact List.mem_append_right _ member
            rw [split, ← List.append_assoc] at later
            rw [split, List.append_assoc]
            apply Reads.round (.passed (.blanks (List.cons_ne_nil _ _) _ (blanks_end ends more)))
            · apply shorter _ _ (fun other member => white other (inGap other member)) later rfl
              omega
            · exact fun other member => (mem_blanks other).mpr (all other member)

section Tokens

variable {words : List Token}

/-- A token that its lexeme stands for. -/
def IsToken (token : Token) : Prop :=
  ∃ pattern, Matches pattern token.lexeme ∧ Means pattern token.lexeme token.kind token.literal

theorem spaced_cons (lexeme gap : Bytes) (lexemes gaps : List Bytes) :
    spaced (lexeme :: lexemes) (gap :: gaps) = lexeme ++ (gap ++ spaced lexemes gaps) := by
  rw [spaced, List.zipWith_cons_cons, List.flatten_cons, List.append_assoc]
  rfl

theorem spaced_starts (tokens : ∀ word ∈ words, IsToken word) (gaps : List Bytes) :
    ∀ byte ∈ (spaced (words.map Token.lexeme) gaps).head?, IsVisible byte := by
  intro byte member
  cases words with
  | nil => cases member
  | cons word words =>
      cases gaps with
      | nil => cases member
      | cons gap gaps =>
          obtain ⟨_, matched, _⟩ := tokens word (by simp)
          obtain ⟨first, later, split, _, visible⟩ := matches_start matched
          rw [List.map_cons, spaced_cons, split] at member
          obtain rfl : first = byte := Option.some.inj member
          exact visible

theorem later_gaps {gap : Bytes} {gaps : List Bytes}
    (apart : ∀ other ∈ (gap :: gaps).dropLast, other ≠ []) :
    (gap = [] → gaps = []) ∧ ∀ other ∈ gaps.dropLast, other ≠ [] := by
  cases gaps with
  | nil => simp
  | cons next gaps =>
      rw [List.dropLast_cons_of_ne_nil (List.cons_ne_nil _ _), List.forall_mem_cons] at apart
      exact ⟨fun empty => absurd empty apart.1, apart.2⟩

/-- Tokens that are set out with gaps between them are read again. -/
theorem reads_spaced (tokens : ∀ word ∈ words, IsToken word) {gaps : List Bytes}
    (count : gaps.length = words.length) (white : ∀ gap ∈ gaps, IsWhite gap)
    (apart : ∀ gap ∈ gaps.dropLast, gap ≠ []) (before : Bytes) :
    ∃ moved, Reads before (spaced (words.map Token.lexeme) gaps) moved [] ∧
      moved.map Token.unplaced = words.map Token.unplaced ++ [(Token.endOfInput 0).unplaced] := by
  induction words generalizing gaps before with
  | nil => exact ⟨_, .done, rfl⟩
  | cons word words induction =>
      cases gaps with
      | nil => cases count
      | cons gap gaps =>
          rw [List.length_cons, List.length_cons, Nat.add_right_cancel_iff] at count
          rw [List.forall_mem_cons] at tokens white
          obtain ⟨onlyLast, apartLater⟩ := later_gaps apart
          obtain ⟨moved, later, same⟩ :=
            induction tokens.2 count white.2 apartLater (before ++ word.lexeme ++ gap)
          obtain ⟨pattern, matched, means⟩ := tokens.1
          have behind := reads_behind_gap white.1 (spaced_starts tokens.2 gaps) later
          have ends : ∀ byte ∈ (gap ++ spaced (words.map Token.lexeme) gaps).head?,
              ¬IsVisible byte := by
            intro byte member
            by_cases empty : gap = []
            · have noWords : words = [] := by
                rw [onlyLast empty] at count
                exact List.length_eq_zero_iff.mp count.symm
              rw [empty, noWords] at member
              cases member
            · rw [List.head?_append, List.head?_eq_some_head empty, Option.some_or] at member
              obtain rfl := Option.some.inj member
              exact hidden_of_white white.1 _ (List.head_mem empty)
          have whole := Reads.round (.token (longest_before_gap matched ends) means) behind
          rw [List.map_cons, spaced_cons]
          refine ⟨_, whole, ?_⟩
          rw [List.map_append, same]
          rfl

end Tokens

end Lexicon

section Sources

variable {source : Bytes}

theorem words_are_tokens : ∀ word ∈ (lex source).tokens.filter (·.kind ≠ .eof), IsToken word := by
  intro word member
  rw [List.mem_filter, decide_eq_true_eq] at member
  rcases (reads_rounds (reads_lex source)).1 word member.1 with rfl | ⟨_, _, _, _, round⟩
  · exact absurd rfl member.2
  · cases round with
    | token longest means => exact ⟨_, longest.matched, means⟩

theorem lex_unplaced (source : Bytes) : (lex source).tokens.map Token.unplaced =
    ((lex source).tokens.filter (·.kind ≠ .eof)).map Token.unplaced ++
      [(Token.endOfInput 0).unplaced] := by
  have noEnd : ∀ token ∈ tokensFrom {} (pieces source), decide (token.kind ≠ .eof) = true := by
    intro token member
    rw [decide_eq_true_eq]
    exact (tokens_from_shaped (pieces_shaped source) token member).1
  rw [lex]
  dsimp only
  rw [List.filter_append, List.filter_eq_self.mpr noEnd, List.map_append, List.map_append]
  simp [Token.unplaced, Token.endOfInput]

/-- A source that is set out anew is read as the same tokens at other places. -/
theorem lex_layout (layout : Layout (lexemes source)) :
    (lex layout.text).errors = [] ∧
      (lex layout.text).tokens.map Token.unplaced = (lex source).tokens.map Token.unplaced := by
  have count := layout.count.trans (List.length_map _)
  obtain ⟨moved, later, same⟩ :=
    reads_spaced words_are_tokens count layout.white layout.apart ([] ++ layout.front)
  have reads := reads_behind_gap layout.whiteFront (spaced_starts words_are_tokens _) later
  obtain ⟨sameTokens, noErrors⟩ := (reads_lex layout.text).unique reads
  rw [sameTokens, lex_unplaced]
  exact ⟨noErrors, same⟩

end Sources

end ExprCompiler
