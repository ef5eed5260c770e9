import ExprCompiler.Proofs.Token.Places

/-!
Reading line by line. No round of a reading takes a line break together with other bytes, and none
looks behind one to decide what it takes. What stands in front of a line break is therefore read as
it is alone, and what stands behind it is read as a source of its own, some lines and bytes further
on.
-/

namespace ExprCompiler

def Position.below (lines : Nat) (position : Position) : Position :=
  { position with line := position.line + lines }

def Span.behind (width : Nat) (span : Span) : Span := ⟨span.first + width, span.last + width⟩

/-- The token of a source behind some lines that take `width` bytes. The mark for the end has no
offsets that could move. -/
def Token.behind (lines width : Nat) (token : Token) : Token :=
  { token with
    position := token.position.below lines
    offsets := if token.kind = .eof then token.offsets else token.offsets.behind width }

def LexError.below (lines : Nat) (error : LexError) : LexError :=
  { error with position := error.position.below lines }

namespace Lexicon

variable {before taken rest source : Bytes} {token : Option Token} {error : Option LexError}

/-- What holds no line break and begins a text begins its first line. -/
theorem front_of_line {front more : Bytes} (noBreak : lineBreak ∉ front)
    (begins : front <+: source ++ lineBreak :: more) : front <+: source := by
  obtain ⟨behind, split⟩ := begins
  rcases List.append_eq_append_iff.mp split with ⟨left, inSource, _⟩ | ⟨left, whole, inMore⟩
  · exact ⟨left, inSource.symm⟩
  · cases left with
    | nil => exact ⟨[], by rw [whole, List.append_nil, List.append_nil]⟩
    | cons byte left =>
        obtain ⟨rfl, _⟩ := List.cons.inj inMore
        exact absurd (by simp [whole]) noBreak

theorem Longest.before_break {pattern : Pattern} {lexeme : Bytes}
    (longest : Longest source pattern lexeme) (more : Bytes) :
    Longest (source ++ lineBreak :: more) pattern lexeme where
  matched := longest.matched
  front := longest.front.trans (List.prefix_append _ _)
  longest := by
    intro other longer matched front
    exact longest.longest other longer matched (front_of_line (matches_in_line matched).1 front)

theorem Character.before_break {bytes : Bytes} {code : Nat}
    (character : Character source bytes code) (notBreak : source.head? ≠ some lineBreak)
    (more : Bytes) : Character (source ++ lineBreak :: more) bytes code := by
  cases character with
  | encoded front => exact .encoded (front.trans (List.prefix_append _ _))
  | @invalid byte front none =>
      apply Character.invalid (front.trans (List.prefix_append _ _))
      intro char begins
      obtain ⟨rest, rfl⟩ := front
      have glyph : Text.firstGlyph byte (rest ++ lineBreak :: more) = _ :=
        character_iff_glyph.mp (Character.encoded begins)
      have noBreak := Piece.glyph_no_break (fun same => notBreak (congrArg some same))
        (rest ++ lineBreak :: more)
      rw [glyph] at noBreak
      exact none char (front_of_line noBreak begins)

/-- A round takes the same in front of a line break as at the end of a source. -/
theorem Round.before_break (round : Round before taken rest token error) (more : Bytes) :
    Round before taken (rest ++ lineBreak :: more) token error := by
  cases round with
  | passed passed =>
      apply Round.passed
      cases passed with
      | lineBreak => exact .lineBreak
      | blanks some all whole =>
          apply Passed.blanks some all
          intro byte member
          cases rest with
          | nil =>
              cases member
              decide +kernel
          | cons first rest => exact whole byte member
  | token longest means =>
      have further := longest.before_break more
      rw [List.append_assoc] at further
      exact .token further means
  | outOfRange longest large =>
      have further := longest.before_break more
      rw [List.append_assoc] at further
      exact .outOfRange further large
  | unexpected front visible unmatched =>
      obtain ⟨byte, others, rfl⟩ := List.exists_cons_of_ne_nil (character_ne_nil front)
      have seen : IsVisible byte := visible_start visible
      apply Round.unexpected
      · rw [← List.append_assoc]
        exact front.before_break (fun same => seen.1 (Option.some.inj same)) more
      · intro run left split
        exact Piece.not_passed seen split
      · intro pattern lexeme matched begins
        rw [← List.append_assoc] at begins
        exact unmatched pattern lexeme matched (front_of_line (matches_in_line matched).1 begins)

theorem place_below (front before : Bytes) (width : Nat) :
    place (front ++ lineBreak :: before) width =
      (place before width).below (front.count lineBreak + 1) := by
  have column : ((front ++ lineBreak :: before).reverse.takeWhile (· ≠ lineBreak)) =
      before.reverse.takeWhile (· ≠ lineBreak) := by
    rw [List.reverse_append, List.reverse_cons, List.append_assoc, List.takeWhile_append]
    split
    · rename_i whole
      rw [List.singleton_append, List.takeWhile_cons_of_neg (by simp), List.append_nil,
        List.takeWhile_prefix _ |>.eq_of_length whole]
    · rfl
  have lines : ((front ++ lineBreak :: before).count lineBreak : Int) =
      (before.count lineBreak : Int) + ((front.count lineBreak + 1 : Nat) : Int) := by
    rw [List.count_append, List.count_cons_self]
    omega
  simp only [place, Position.below, column, lines]

theorem offsets_behind (front before : Bytes) (width : Nat) :
    offsets (front ++ lineBreak :: before) width =
      (offsets before width).behind (front.length + 1) := by
  simp only [offsets, Span.behind, List.length_append, List.length_cons, Span.mk.injEq]
  omega

/-- A round behind further lines gives the same at a later place. -/
theorem Round.behind_lines (round : Round before taken rest token error) (front : Bytes) :
    Round (front ++ lineBreak :: before) taken rest
      (token.map (Token.behind (front.count lineBreak + 1) (front.length + 1)))
      (error.map (LexError.below (front.count lineBreak + 1))) := by
  cases round with
  | passed passed => exact .passed passed
  | token longest means =>
      have noEnd := (round_token_marks (@Round.token before _ _ _ _ _ longest means)).1
      have moved := @Round.token (front ++ lineBreak :: before) _ _ _ _ _ longest means
      rw [place_below, offsets_behind] at moved
      rw [Option.map_some, Token.behind, if_neg noEnd]
      exact moved
  | outOfRange longest large =>
      have moved := @Round.outOfRange (front ++ lineBreak :: before) _ _ longest large
      rw [place_below] at moved
      exact moved
  | unexpected character visible unmatched =>
      have moved := @Round.unexpected (front ++ lineBreak :: before) _ _ _ character visible
        unmatched
      rw [place_below] at moved
      exact moved

variable {tokens later : List Token} {errors problems : List LexError}

theorem Reads.behind_lines (reads : Reads before source tokens errors) (front : Bytes) :
    Reads (front ++ lineBreak :: before) source
      (tokens.map (Token.behind (front.count lineBreak + 1) (front.length + 1)))
      (errors.map (LexError.below (front.count lineBreak + 1))) := by
  induction reads with
  | @done before =>
      have line : ((front ++ lineBreak :: before).count lineBreak : Int) = _ :=
        congrArg Position.line (place_below front before 0)
      have finish := @Reads.done (front ++ lineBreak :: before)
      rw [line] at finish
      exact finish
  | round first _ laterMoved =>
      rw [← List.cons_append, ← List.append_assoc] at laterMoved
      rw [List.map_append, List.map_append, ← Option.toList_map, ← Option.toList_map]
      exact .round (first.behind_lines front) laterMoved

theorem Reads.before_break (reads : Reads before source tokens errors) {more : Bytes}
    (behind : Reads (before ++ source ++ [lineBreak]) more later problems) :
    Reads before (source ++ lineBreak :: more)
      (tokens.filter (·.kind ≠ .eof) ++ later) (errors ++ problems) := by
  induction reads with
  | done =>
      rw [List.append_nil] at behind
      exact .round (.passed .lineBreak) behind
  | @round before taken rest token error tokens errors first _ laterRead =>
      have words : token.toList.filter (·.kind ≠ .eof) = token.toList := by
        cases token with
        | none => rfl
        | some token => simp [(round_token_marks first).1]
      rw [List.filter_append, words, List.append_assoc, List.append_assoc, List.append_assoc]
      refine .round (first.before_break more) (laterRead ?_)
      rw [List.append_assoc before]
      exact behind

end Lexicon

open Lexicon

/-- A source is read line by line. What stands in front of a line break is read as it is alone, up
to its end mark. What stands behind it is read as a source of its own that starts below these lines
and behind their bytes. -/
theorem lex_line_by_line (first second : Bytes) :
    lex (first ++ lineBreak :: second) =
      ⟨(lex first).tokens.filter (·.kind ≠ .eof) ++
          (lex second).tokens.map (Token.behind (first.count lineBreak + 1) (first.length + 1)),
        (lex first).errors ++
          (lex second).errors.map (LexError.below (first.count lineBreak + 1))⟩ := by
  have behind := (reads_lex second).behind_lines first
  have reads := (reads_lex first).before_break behind
  obtain ⟨sameTokens, sameErrors⟩ := (reads_lex (first ++ lineBreak :: second)).unique reads
  rw [← sameTokens, ← sameErrors]

end ExprCompiler
