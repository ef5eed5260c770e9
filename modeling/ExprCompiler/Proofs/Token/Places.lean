import ExprCompiler.Diagnostics
import ExprCompiler.Proofs.Token.LongestMatch

/-!
Places of tokens and errors. A place that the lexicon gives to some bytes of a line is one that a
report finds again: in the lines of the source, without the carriage returns at their ends, just
these bytes stand at its columns. The mark for the end of a source is on its last line.
-/

namespace ExprCompiler

open Lexicon

def Span.bytesOf (columns : Span) (line : Bytes) : Bytes :=
  (line.drop columns.first.toNat).take columns.size

/-- A position that marks some bytes of a source, at columns of one of its lines. -/
def Position.Marks (source : Bytes) (position : Position) (bytes : Bytes) : Prop :=
  ∃ (number : Nat) (line : Bytes), position.line = number ∧ (Text.lines source)[number]? = some line ∧
    0 ≤ position.columns.first ∧ position.columns.first ≤ position.columns.last ∧
    position.columns.last < (withoutCarriageReturns line).length ∧
    position.columns.bytesOf (withoutCarriageReturns line) = bytes

def Position.MarksEnd (source : Bytes) (position : Position) : Prop :=
  position.line + 1 = (Text.lines source).length ∧ position.columns.isEmpty = true

namespace Text

/-- The piece that the byte behind `before` belongs to. -/
theorem split_from_at (separator : UInt8) {piece : Bytes} (noBreak : separator ∉ piece)
    (before rest : Bytes) :
    (splitFrom separator piece (before ++ rest))[before.count separator]? =
      some (((before.reverse ++ piece).takeWhile (· ≠ separator)).reverse ++
        rest.takeWhile (· ≠ separator)) := by
  induction before generalizing piece with
  | nil =>
      have whole : piece.takeWhile (· ≠ separator) = piece := by
        have inPiece : ∀ byte ∈ piece, decide (byte ≠ separator) = true := by
          intro byte member
          rw [decide_eq_true_eq]
          rintro rfl
          exact noBreak member
        have taken : (piece ++ []).takeWhile (· ≠ separator) = piece ++ [] :=
          List.takeWhile_append_of_pos inPiece
        rwa [List.append_nil] at taken
      rw [List.nil_append, List.count_nil, List.reverse_nil, List.nil_append, whole]
      clear whole
      induction rest generalizing piece with
      | nil => simp [splitFrom]
      | cons byte rest induction =>
          rw [splitFrom]
          by_cases isBreak : byte = separator
          · rw [if_pos isBreak, List.takeWhile_cons_of_neg (by simp [isBreak]), List.append_nil]
            rfl
          · have later := @induction (byte :: piece) (by simp [Ne.symm isBreak, noBreak])
            rw [if_neg isBreak, later, List.takeWhile_cons_of_pos (by simp [isBreak])]
            simp
  | cons byte before induction =>
      rw [List.cons_append, splitFrom]
      by_cases isBreak : byte = separator
      · have later := @induction [] (by simp)
        rw [if_pos isBreak, isBreak, List.count_cons_self, List.getElem?_cons_succ, later,
          List.append_nil, List.reverse_cons, List.append_assoc, List.singleton_append,
          List.takeWhile_append]
        split
        · rename_i whole
          rw [List.takeWhile_cons_of_neg (by simp), List.append_nil,
            List.takeWhile_prefix _ |>.eq_of_length whole]
        · rfl
      · have later := @induction (byte :: piece) (by simp [Ne.symm isBreak, noBreak])
        rw [if_neg isBreak, List.count_cons_of_ne isBreak, later, List.reverse_cons,
          List.append_assoc, List.singleton_append]

theorem lines_at (before rest : Bytes) :
    (lines (before ++ rest))[before.count 10]? =
      some ((before.reverse.takeWhile (· ≠ 10)).reverse ++ rest.takeWhile (· ≠ 10)) := by
  have found := @split_from_at 10 [] (by simp) before rest
  rwa [List.append_nil] at found

theorem split_from_length (separator : UInt8) (piece text : Bytes) :
    (splitFrom separator piece text).length = text.count separator + 1 := by
  induction text generalizing piece with
  | nil => rfl
  | cons byte rest induction =>
      rw [splitFrom]
      by_cases isBreak : byte = separator
      · rw [if_pos isBreak, isBreak, List.length_cons, induction, List.count_cons_self]
      · rw [if_neg isBreak, induction, List.count_cons_of_ne isBreak]

theorem lines_length (text : Bytes) : (lines text).length = text.count 10 + 1 :=
  split_from_length 10 [] text

end Text

/-- Carriage returns are taken off behind the last other byte only. -/
theorem without_carriage_returns_append {text : Bytes} (last : text.getLast? ≠ some 13)
    (more : Bytes) :
    withoutCarriageReturns (text ++ more) = text ++ withoutCarriageReturns more := by
  have stays : text.reverse.dropWhile (· == 13) = text.reverse := by
    cases reversed : text.reverse with
    | nil => rfl
    | cons byte rest =>
        rw [List.getLast?_eq_head?_reverse, reversed, List.head?_cons] at last
        rw [List.dropWhile_cons_of_neg]
        intro isReturn
        exact last (congrArg some (beq_iff_eq.mp isReturn))
  unfold withoutCarriageReturns
  rw [List.reverse_append, List.dropWhile_append]
  split
  · rename_i empty
    rw [List.isEmpty_iff.mp empty, List.reverse_nil, List.append_nil, stays, List.reverse_reverse]
  · rw [List.reverse_append, List.reverse_reverse]

theorem place_marks {before taken rest : Bytes} (nonempty : taken ≠ []) (noBreak : lineBreak ∉ taken)
    (last : taken.getLast? ≠ some 13) :
    (place before taken.length).Marks (before ++ (taken ++ rest)) taken := by
  have inLine : ∀ byte ∈ taken, decide (byte ≠ lineBreak) = true := by
    intro byte member
    rw [decide_eq_true_eq]
    rintro rfl
    exact noBreak member
  have width : 0 < taken.length := List.length_pos_iff.mpr nonempty
  have found : (Text.lines (before ++ (taken ++ rest)))[before.count lineBreak]? =
      some ((before.reverse.takeWhile (· ≠ lineBreak)).reverse ++
        (taken ++ rest).takeWhile (· ≠ lineBreak)) := Text.lines_at before (taken ++ rest)
  rw [List.takeWhile_append_of_pos inLine] at found
  have column : (before.reverse.takeWhile (· ≠ lineBreak)).length =
      (before.reverse.takeWhile (· ≠ lineBreak)).reverse.length := List.length_reverse.symm
  rw [place, column]
  refine ⟨before.count lineBreak, _, rfl, found, ?_⟩
  generalize (before.reverse.takeWhile (· ≠ lineBreak)).reverse = start
  have ends : (start ++ taken).getLast? ≠ some 13 := by
    rw [List.getLast?_append, List.getLast?_eq_some_getLast nonempty, Option.some_or,
      ← List.getLast?_eq_some_getLast nonempty]
    exact last
  have trimmed := without_carriage_returns_append ends (rest.takeWhile (· ≠ lineBreak))
  rw [List.append_assoc] at trimmed
  rw [trimmed, List.append_assoc]
  have size : (⟨start.length, start.length + taken.length - 1⟩ : Span).size = taken.length := by
    rw [Span.size]
    dsimp only
    omega
  refine ⟨Int.natCast_nonneg _, by dsimp only; omega, ?_, ?_⟩
  · rw [List.length_append, List.length_append]
    dsimp only
    omega
  · rw [Span.bytesOf, size, Int.toNat_natCast, List.drop_left, List.take_left]

section Rounds

variable {before taken rest source : Bytes} {pattern : Pattern} {lexeme : Bytes}

/-- A match lies in a line and ends with no blank. -/
theorem matches_in_line (matched : Matches pattern lexeme) :
    lineBreak ∉ lexeme ∧ lexeme.getLast? ≠ some 13 := by
  have calm {text : Bytes} (all : ∀ byte ∈ text, IsVisible byte) :
      lineBreak ∉ text ∧ text.getLast? ≠ some 13 := by
    refine ⟨fun member => (all _ member).1 rfl, fun isLast => ?_⟩
    have hidden : ¬IsVisible 13 := by decide +kernel
    exact hidden (all 13 (List.mem_of_getLast? isLast))
  have letter : ∀ byte ∈ letters, IsVisible byte := by decide +kernel
  have digit : ∀ byte ∈ digits, IsVisible byte := by decide +kernel
  cases matched with
  | @operator entry listed =>
      have all : ∀ entry ∈ operators, ∀ byte ∈ utf8 entry.1, IsVisible byte := by decide +kernel
      exact calm (all entry listed)
  | @word first later starts parts =>
      apply calm
      intro byte member
      rcases List.mem_cons.mp member with rfl | inLater
      · exact letter _ starts
      · rcases parts byte inLater with isLetter | isDigit
        · exact letter byte isLetter
        · exact digit byte isDigit
  | @number first later starts parts =>
      apply calm
      intro byte member
      rcases List.mem_cons.mp member with rfl | inLater
      · exact digit _ starts
      · rcases parts byte inLater with isDigit | rfl
        · exact digit byte isDigit
        · exact letter _ (by decide +kernel)
  | @text content parts =>
      refine ⟨?_, ?_⟩
      · intro member
        rcases List.mem_cons.mp member with isQuote | inRest
        · exact absurd isQuote (by decide)
        · rcases List.mem_append.mp inRest with inContent | isQuote
          · exact (parts _ inContent).2 rfl
          · exact absurd (List.mem_singleton.mp isQuote) (by decide)
      · rw [← List.cons_append, List.getLast?_concat]
        decide

theorem match_marks (longest : Longest (lexeme ++ rest) pattern lexeme) :
    (place before lexeme.length).Marks (before ++ (lexeme ++ rest)) lexeme := by
  obtain ⟨noBreak, last⟩ := matches_in_line longest.matched
  obtain ⟨first, later, rfl, _⟩ := matches_start longest.matched
  exact place_marks (List.cons_ne_nil _ _) noBreak last

theorem visible_start {byte : UInt8}
    (visible : ∀ run left, run ++ left = byte :: rest → ¬Passed run left) : IsVisible byte := by
  refine ⟨?_, ?_⟩
  · rintro rfl
    exact visible [lineBreak] rest rfl .lineBreak
  · intro blank
    have fits : Piece.Fits [] {} (byte :: rest) (.blanks (byte :: rest.takeWhile Piece.isBlank)) :=
      Piece.fits_blanks ((mem_blanks byte).mp blank)
    obtain ⟨_, left, split, round⟩ := fits
    cases round with
    | passed passed => exact visible _ _ split.symm passed

/-- The bytes that an error is about, of those that were taken with it: a number as a whole, of an
unexpected character the first byte. -/
def LexCause.marked (cause : LexCause) (taken : Bytes) : Bytes :=
  match cause with
  | .outOfRange => taken
  | _ => taken.take 1

theorem round_token_marks {token : Token} {error : Option LexError}
    (round : Round before taken rest (some token) error) :
    token.kind ≠ .eof ∧ token.position.Marks (before ++ (taken ++ rest)) token.lexeme := by
  cases round with
  | token longest means =>
      refine ⟨?_, match_marks longest⟩
      cases means with
      | @operator entry listed =>
          have all : ∀ entry ∈ operators, entry.2 ≠ .eof := by decide
          exact all entry listed
      | @keyword entry listed =>
          have all : ∀ entry ∈ TokenKind.keywords, entry.2 ≠ .eof := by decide
          exact all entry listed
      | identifier _ => exact fun same => nomatch same
      | number _ => exact fun same => nomatch same
      | text => exact fun same => nomatch same

theorem round_error_marks {error : LexError} {token : Option Token}
    (round : Round before taken rest token (some error)) :
    error.position.Marks (before ++ (taken ++ rest)) (error.cause.marked taken) := by
  cases round with
  | outOfRange longest _ => exact match_marks longest
  | @unexpected _ _ code front visible _ =>
      obtain ⟨byte, more, rfl⟩ := List.exists_cons_of_ne_nil (character_ne_nil front)
      have seen := visible_start visible
      have first : (unexpected (byte :: more) code).marked (byte :: more) = [byte] := by
        unfold unexpected
        split <;> rfl
      rw [first]
      have marks := @place_marks before [byte] (more ++ rest) (List.cons_ne_nil _ _)
        (by simpa using seen.1.symm) ?_
      · exact marks
      · intro isReturn
        cases isReturn
        exact absurd seen (by decide +kernel)

/-- Every token and every error of a source is that of a round, or the mark for the end. -/
theorem reads_rounds {tokens : List Token} {errors : List LexError}
    (reads : Lexicon.Reads before source tokens errors) :
    (∀ token ∈ tokens, token = .endOfInput ((before ++ source).count lineBreak) ∨
      ∃ middle taken rest, before ++ source = middle ++ (taken ++ rest) ∧
        Round middle taken rest (some token) none) ∧
    (∀ error ∈ errors, ∃ middle taken rest, before ++ source = middle ++ (taken ++ rest) ∧
      Round middle taken rest none (some error)) := by
  induction reads with
  | done =>
      refine ⟨?_, fun _ member => nomatch member⟩
      intro token member
      rw [List.append_nil]
      exact .inl (List.mem_singleton.mp member)
  | @round before taken rest token error tokens errors first later induction =>
      rw [List.append_assoc] at induction
      refine ⟨?_, ?_⟩
      · intro other member
        rcases List.mem_append.mp member with here | behind
        · obtain rfl := Option.mem_toList.mp here
          have quiet : error = none := by
            cases first
            rfl
          rw [quiet] at first
          exact .inr ⟨before, taken, rest, rfl, first⟩
        · exact induction.1 other behind
      · intro other member
        rcases List.mem_append.mp member with here | behind
        · obtain rfl := Option.mem_toList.mp here
          have quiet : token = none := by cases first <;> rfl
          rw [quiet] at first
          exact ⟨before, taken, rest, rfl, first⟩
        · exact induction.2 other behind

end Rounds

section Sources

variable {source : Bytes}

/-- Every token of a source marks its lexeme, or the end of the source. -/
theorem token_marks {token : Token} (member : token ∈ (lex source).tokens) :
    (token.kind ≠ .eof ∧ token.position.Marks source token.lexeme) ∨
      (token.kind = .eof ∧ token.position.MarksEnd source) := by
  rcases (reads_rounds (reads_lex source)).1 token member with rfl | ⟨middle, taken, rest, split, round⟩
  · refine .inr ⟨rfl, ?_, rfl⟩
    rw [Text.lines_length]
    rfl
  · rw [List.nil_append] at split
    rw [split]
    exact .inl (round_token_marks round)

theorem lex_error_marks {error : LexError} (member : error ∈ (lex source).errors) :
    ∃ before taken rest, source = before ++ (taken ++ rest) ∧
      Round before taken rest none (some error) ∧
      error.position.Marks source (error.cause.marked taken) := by
  obtain ⟨before, taken, rest, split, round⟩ := (reads_rounds (reads_lex source)).2 error member
  rw [List.nil_append] at split
  refine ⟨before, taken, rest, split, round, ?_⟩
  rw [split]
  exact round_error_marks round

end Sources

end ExprCompiler
