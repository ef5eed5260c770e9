import ExprCompiler.Proofs.Text.Utf8
import ExprCompiler.Proofs.Token.Lexicon

/-!
The lexicon leaves no choice. The first byte of a match fixes its pattern, so the longest match is
one text of one pattern, and what it means is fixed by a table or by its digits. What is passed over
and what is reported starts with other bytes. A source therefore has one reading.
-/

namespace ExprCompiler.Lexicon

/-- A class of bytes that is listed in full, in increasing order. -/
theorem mem_listed {listed : Bytes} {test : UInt8 → Bool}
    (full : listed = ((List.range 256).map UInt8.ofNat).filter test) (byte : UInt8) :
    byte ∈ listed ↔ test byte = true := by
  have inRange : byte ∈ (List.range 256).map UInt8.ofNat :=
    List.mem_map.mpr ⟨byte.toNat, List.mem_range.mpr byte.toNat_lt, UInt8.ofNat_toNat⟩
  rw [full, List.mem_filter]
  exact ⟨fun both => both.2, fun holds => ⟨inRange, holds⟩⟩

theorem mem_letters (byte : UInt8) : byte ∈ letters ↔ Piece.isWordStart byte = true :=
  mem_listed (by decide +kernel) byte

theorem mem_digits (byte : UInt8) : byte ∈ digits ↔ Piece.isDigit byte = true :=
  mem_listed (by decide +kernel) byte

theorem mem_blanks (byte : UInt8) : byte ∈ blanks ↔ Piece.isBlank byte = true :=
  mem_listed (by decide +kernel) byte

/-- The only pattern that can match from a byte on. -/
def patternOf (byte : UInt8) : Pattern :=
  if byte ∈ letters then .word else if byte ∈ digits then .number
  else if byte = Text.doubleQuote then .text else .operator

def IsVisible (byte : UInt8) : Prop := byte ≠ lineBreak ∧ byte ∉ blanks

instance (byte : UInt8) : Decidable (IsVisible byte) := inferInstanceAs (Decidable (_ ∧ _))

variable {pattern other : Pattern} {lexeme source rest left : Bytes}

theorem matches_start (matched : Matches pattern lexeme) :
    ∃ first later, lexeme = first :: later ∧ patternOf first = pattern ∧ IsVisible first := by
  cases matched with
  | @operator entry listed =>
      have starts : ∀ entry ∈ operators, (utf8 entry.1).head?.any fun first =>
          decide (patternOf first = .operator) && decide (IsVisible first) := by decide +kernel
      have start := starts entry listed
      cases text : utf8 entry.1 with
      | nil => simp [text] at start
      | cons first later =>
          rw [text, List.head?_cons, Option.any_some, Bool.and_eq_true, decide_eq_true_eq,
            decide_eq_true_eq] at start
          exact ⟨first, later, rfl, start⟩
  | @word first later starts parts =>
      have visible : ∀ byte ∈ letters, IsVisible byte := by decide +kernel
      exact ⟨first, later, rfl, by rw [patternOf, if_pos starts], visible first starts⟩
  | @number first later starts parts =>
      have visible : ∀ byte ∈ digits, byte ∉ letters ∧ IsVisible byte := by decide +kernel
      obtain ⟨noLetter, visible⟩ := visible first starts
      exact ⟨first, later, rfl, by rw [patternOf, if_neg noLetter, if_pos starts], visible⟩
  | text parts => exact ⟨Text.doubleQuote, _, rfl, by decide +kernel, by decide +kernel⟩

theorem Longest.unique {longer : Bytes} (first : Longest source pattern lexeme)
    (second : Longest source other longer) : lexeme = longer ∧ pattern = other := by
  obtain ⟨behind, split⟩ := first.front
  obtain ⟨behind', split'⟩ := second.front
  have sameLength := Nat.le_antisymm
    (second.longest pattern lexeme first.matched first.front)
    (first.longest other longer second.matched second.front)
  obtain ⟨rfl, _⟩ := List.append_inj (split.trans split'.symm) sameLength
  obtain ⟨byte, later, rfl, samePattern, _⟩ := matches_start first.matched
  obtain ⟨byte', later', same, samePattern', _⟩ := matches_start second.matched
  obtain ⟨rfl, _⟩ := List.cons.inj same
  exact ⟨rfl, samePattern.symm.trans samePattern'⟩

theorem Means.unique {kind kind' : TokenKind} {literal literal' : Value}
    (first : Means pattern lexeme kind literal) (second : Means pattern lexeme kind' literal') :
    kind = kind' ∧ literal = literal' := by
  have table : ∀ entries ∈ [operators, TokenKind.keywords], ∀ entry ∈ entries, ∀ entry' ∈ entries,
      utf8 entry.1 = utf8 entry'.1 → entry.2 = entry'.2 := by decide +kernel
  generalize text : lexeme = same at second
  cases first with
  | operator listed =>
      cases second with
      | operator listed' => exact ⟨table _ (by simp) _ listed _ listed' text, rfl⟩
  | keyword listed =>
      cases second with
      | keyword listed' => exact ⟨table _ (by simp) _ listed _ listed' text, rfl⟩
      | identifier absent => exact absurd text (absent _ listed)
  | identifier absent =>
      cases second with
      | keyword listed => exact absurd text.symm (absent _ listed)
      | identifier => exact ⟨rfl, rfl⟩
  | number =>
      cases second with
      | number =>
          rw [text]
          exact ⟨rfl, rfl⟩
  | text =>
      cases second with
      | text =>
          obtain ⟨_, sameContent⟩ := List.cons.inj text
          rw [List.append_cancel_right sameContent]
          exact ⟨rfl, rfl⟩

theorem character_iff_glyph {byte : UInt8} {bytes : Bytes} {code : Nat} :
    Character (byte :: rest) bytes code ↔ Text.firstGlyph byte rest = ⟨code, bytes⟩ := by
  constructor
  · intro character
    cases character with
    | encoded front =>
        obtain ⟨later, split⟩ := front
        exact Text.first_glyph_encoded split.symm
    | invalid front none =>
        obtain ⟨later, split⟩ := front
        rcases Text.first_glyph_cases byte rest with ⟨char, front, _⟩ | ⟨_, alone⟩
        · exact absurd front (none char)
        · rw [(List.cons.inj split).1]
          exact alone
  · intro glyph
    rcases Text.first_glyph_cases byte rest with ⟨char, front, form⟩ | ⟨none, alone⟩
    · cases form.symm.trans glyph
      exact .encoded front
    · cases alone.symm.trans glyph
      exact .invalid ⟨rest, rfl⟩ none

theorem character_ne_nil {bytes : Bytes} {code : Nat} (character : Character source bytes code) :
    bytes ≠ [] := by
  cases character with
  | @encoded char _ =>
      apply List.ne_nil_of_length_pos
      rw [String.length_utf8EncodeChar]
      exact char.utf8Size_pos
  | invalid _ _ => exact List.cons_ne_nil _ _

theorem Character.unique {bytes bytes' : Bytes} {code code' : Nat}
    (first : Character source bytes code) (second : Character source bytes' code') :
    bytes = bytes' ∧ code = code' := by
  cases source with
  | nil =>
      have front : bytes <+: [] := by
        cases first with
        | encoded front => exact front
        | invalid front _ => exact front
      exact absurd (List.eq_nil_of_prefix_nil front) (character_ne_nil first)
  | cons byte rest =>
      have glyphs := (character_iff_glyph.mp first).symm.trans (character_iff_glyph.mp second)
      rw [Text.Glyph.mk.injEq] at glyphs
      exact ⟨glyphs.2, glyphs.1⟩

theorem Passed.start {run : Bytes} (passed : Passed run rest) :
    ∃ first later, run = first :: later ∧ ¬IsVisible first := by
  cases passed with
  | lineBreak => exact ⟨_, _, rfl, by decide +kernel⟩
  | blanks some all _ =>
      obtain ⟨first, later, rfl⟩ := List.exists_cons_of_ne_nil some
      exact ⟨first, later, rfl, fun visible => visible.2 (all first (by simp))⟩

theorem blanks_eq_take {run : Bytes} (all : ∀ byte ∈ run, byte ∈ blanks)
    (whole : ∀ byte ∈ rest.head?, byte ∉ blanks) : (run ++ rest).takeWhile Piece.isBlank = run := by
  rw [List.takeWhile_append_of_pos (fun byte member => (mem_blanks byte).mp (all byte member))]
  cases rest with
  | nil => exact List.append_nil run
  | cons byte rest =>
      have stops := whole byte rfl
      rw [mem_blanks] at stops
      rw [List.takeWhile_cons_of_neg stops, List.append_nil]

theorem no_break_before_blanks {run : Bytes} (some : run ≠ []) (all : ∀ byte ∈ run, byte ∈ blanks) :
    [lineBreak] ++ left ≠ run ++ rest := by
  have noBlank : lineBreak ∉ blanks := by decide +kernel
  obtain ⟨byte, later, rfl⟩ := List.exists_cons_of_ne_nil some
  intro same
  rw [(List.cons.inj same).1] at noBlank
  exact noBlank (all byte (by simp))

theorem Passed.unique {run run' : Bytes} (first : Passed run rest) (second : Passed run' left)
    (same : run ++ rest = run' ++ left) : run = run' := by
  cases first with
  | lineBreak =>
      cases second with
      | lineBreak => rfl
      | blanks some all whole => exact absurd same (no_break_before_blanks some all)
  | blanks some all whole =>
      cases second with
      | lineBreak => exact absurd same.symm (no_break_before_blanks some all)
      | blanks some' all' whole' =>
          rw [← blanks_eq_take all whole, same, blanks_eq_take all' whole']

theorem not_matched_of_passed {run : Bytes} (passed : Passed run rest)
    (matched : Matches pattern lexeme) : ¬lexeme <+: run ++ rest := by
  obtain ⟨first, later, rfl, hidden⟩ := passed.start
  obtain ⟨byte, others, rfl, _, visible⟩ := matches_start matched
  rintro ⟨behind, split⟩
  rw [(List.cons.inj split).1] at visible
  exact hidden visible

section Round

variable {before taken taken' : Bytes} {token token' : Option Token}
  {error error' : Option LexError}

theorem Round.taken_ne_nil (round : Round before taken rest token error) : taken ≠ [] := by
  cases round with
  | passed passed =>
      obtain ⟨first, later, rfl, _⟩ := passed.start
      exact List.cons_ne_nil _ _
  | token longest _ | outOfRange longest _ =>
      obtain ⟨first, later, rfl, _⟩ := matches_start longest.matched
      exact List.cons_ne_nil _ _
  | unexpected front _ _ => exact character_ne_nil front

/-- A match and anything else do not start at the same place. -/
theorem Longest.excludes {run : Bytes} (longest : Longest source pattern lexeme)
    (same : source = run ++ rest) : ¬Passed run rest := by
  intro passed
  apply not_matched_of_passed passed longest.matched
  rw [← same]
  exact longest.front

theorem Round.unique (first : Round before taken rest token error)
    (second : Round before taken' left token' error') (same : taken ++ rest = taken' ++ left) :
    taken = taken' ∧ token = token' ∧ error = error' := by
  cases first with
  | passed passed =>
      cases second with
      | passed passed' => exact ⟨passed.unique passed' same, rfl, rfl⟩
      | token longest _ | outOfRange longest _ => exact absurd passed (longest.excludes same.symm)
      | unexpected _ visible _ => exact absurd passed (visible _ _ same)
  | token longest means =>
      cases second with
      | passed passed => exact absurd passed (longest.excludes same)
      | token longest' means' =>
          obtain ⟨rfl, rfl⟩ := longest.unique (same ▸ longest')
          obtain ⟨rfl, rfl⟩ := means.unique means'
          exact ⟨rfl, rfl, rfl⟩
      | outOfRange longest' large =>
          obtain ⟨rfl, rfl⟩ := longest.unique (same ▸ longest')
          cases means with
          | number small => exact absurd large (Nat.not_lt.mpr small)
      | unexpected _ _ unmatched =>
          exact absurd (same ▸ longest.front) (unmatched _ _ longest.matched)
  | outOfRange longest large =>
      cases second with
      | passed passed => exact absurd passed (longest.excludes same)
      | token longest' means =>
          obtain ⟨rfl, rfl⟩ := longest.unique (same ▸ longest')
          cases means with
          | number small => exact absurd large (Nat.not_lt.mpr small)
      | outOfRange longest' _ =>
          obtain ⟨rfl, _⟩ := longest.unique (same ▸ longest')
          exact ⟨rfl, rfl, rfl⟩
      | unexpected _ _ unmatched =>
          exact absurd (same ▸ longest.front) (unmatched _ _ longest.matched)
  | unexpected front visible unmatched =>
      cases second with
      | passed passed => exact absurd passed (visible _ _ same.symm)
      | token longest' _ | outOfRange longest' _ =>
          exact absurd (same ▸ longest'.front) (unmatched _ _ longest'.matched)
      | unexpected front' _ _ =>
          rw [← same] at front'
          obtain ⟨rfl, rfl⟩ := front.unique front'
          exact ⟨rfl, rfl, rfl⟩

end Round

/-- A source has one reading. -/
theorem Reads.unique {before : Bytes} {tokens tokens' : List Token} {errors errors' : List LexError}
    (first : Reads before source tokens errors) (second : Reads before source tokens' errors') :
    tokens = tokens' ∧ errors = errors' := by
  induction first generalizing tokens' errors' with
  | done =>
      generalize empty : ([] : Bytes) = source at second
      cases second with
      | done => exact ⟨rfl, rfl⟩
      | round next _ => exact absurd (List.append_eq_nil_iff.mp empty.symm).1 next.taken_ne_nil
  | @round before taken rest _ _ _ _ next later laterUnique =>
      generalize same : taken ++ rest = source at second
      cases second with
      | done => exact absurd (List.append_eq_nil_iff.mp same).1 next.taken_ne_nil
      | round next' later' =>
          obtain ⟨rfl, rfl, rfl⟩ := next.unique next' same
          rw [← List.append_cancel_left same] at later'
          obtain ⟨rfl, rfl⟩ := laterUnique later'
          exact ⟨rfl, rfl⟩

end ExprCompiler.Lexicon
