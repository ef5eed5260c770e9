import Mathlib.Data.List.Forall2
import ExprCompiler.Proofs.Token.Places

/-!
Tokens, errors and blanks are a partition of a source. A token stands at its offsets, and its line
and its columns follow from them. An error takes an extent of its own: the whole number that is too
large, or the one character that starts no token. These offsets and extents come one after the
other, and a byte in none of them is a line break or a blank.
-/

namespace ExprCompiler

open Lexicon

/-- The line of an offset starts at `start`. -/
structure IsLineStart (source : Bytes) (start offset : Nat) : Prop where
  before : start ≤ offset
  opens : start = 0 ∨ source[start - 1]? = some lineBreak
  unbroken : lineBreak ∉ (source.take offset).drop start

def Position.IsOf (source : Bytes) (position : Position) (offsets : Span) : Prop :=
  position.line = (source.take offsets.first.toNat).count lineBreak ∧
    ∃ start, IsLineStart source start offsets.first.toNat ∧
      position.columns = ⟨offsets.first - start, offsets.last - start⟩

/-- A token that is the text at its offsets, in a line. -/
structure Token.Stands (source : Bytes) (token : Token) : Prop where
  noEnd : token.kind ≠ .eof
  lexeme : token.lexeme = token.offsets.bytesOf source
  unbroken : lineBreak ∉ token.lexeme
  position : token.position.IsOf source token.offsets

/-- What an error takes out of a source: a number as a whole, or one character, marked at its first
byte. -/
inductive LexError.Takes (source : Bytes) : LexError → Span → Prop where
  | number {position : Position} {extent : Span} (whole : position.IsOf source extent)
      (matched : Matches .number (extent.bytesOf source)) :
      Takes source ⟨position, .outOfRange⟩ extent
  | character {position : Position} {extent : Span} {code : Nat}
      (start : position.IsOf source ⟨extent.first, extent.first⟩)
      (one : Character (source.drop extent.first.toNat) (extent.bytesOf source) code) :
      Takes source ⟨position, unexpected (extent.bytesOf source) code⟩ extent

def Span.Before (span later : Span) : Prop := span.last < later.first

/-- The tokens and the errors of a source from an offset on, with the extents of the errors. -/
structure Parted (source : Bytes) (start : Nat) (tokens : List Token) (errors : List LexError)
    (extents : List Span) : Prop where
  stand : ∀ token ∈ tokens, token.Stands source
  take : List.Forall₂ (LexError.Takes source) errors extents
  inside : ∀ span ∈ tokens.map Token.offsets ++ extents,
    start ≤ span.first ∧ span.first ≤ span.last ∧ span.last < source.length
  tokensInOrder : (tokens.map Token.offsets).Pairwise Span.Before
  errorsInOrder : extents.Pairwise Span.Before
  apart : ∀ token ∈ tokens, ∀ extent ∈ extents,
    token.offsets.Before extent ∨ extent.Before token.offsets
  cover : ∀ (index : Nat) (byte : UInt8), start ≤ index → source[index]? = some byte →
    byte = lineBreak ∨ byte ∈ blanks ∨
      ∃ span ∈ tokens.map Token.offsets ++ extents, span.first ≤ index ∧ index ≤ span.last

section Offsets

variable {before taken rest : Bytes}

theorem offsets_bytes (before taken rest : Bytes) :
    (offsets before taken.length).bytesOf (before ++ (taken ++ rest)) = taken := by
  have size : (offsets before taken.length).size = taken.length := by
    rw [Span.size, offsets]
    dsimp only
    omega
  rw [Span.bytesOf, size, offsets, Int.toNat_natCast, List.drop_left, List.take_left]

theorem line_start_behind (before rest : Bytes) :
    IsLineStart (before ++ rest)
      (before.length - (before.reverse.takeWhile (· ≠ lineBreak)).length) before.length := by
  have split := List.takeWhile_append_dropWhile (p := (· ≠ lineBreak)) (l := before.reverse)
  generalize column : before.reverse.takeWhile (· ≠ lineBreak) = line at split
  generalize earlier : before.reverse.dropWhile (· ≠ lineBreak) = front at split
  have words : before = front.reverse ++ line.reverse := by
    rw [← List.reverse_append, split, List.reverse_reverse]
  have start : before.length - line.length = front.reverse.length := by simp [words]
  rw [start]
  refine ⟨by simp [words], ?_, ?_⟩
  · cases front with
    | nil => exact .inl rfl
    | cons byte front =>
        have isBreak : byte = lineBreak := by
          have stops := List.head?_dropWhile_not (· ≠ lineBreak) before.reverse
          rw [earlier] at stops
          simpa using stops
        right
        simp [words, isBreak]
  · rw [List.take_left, words, List.drop_left, List.mem_reverse, ← column]
    intro member
    simpa using Piece.all_taken _ _ _ member

theorem place_is_of (before rest : Bytes) (width : Nat) :
    (place before width).IsOf (before ++ rest) (offsets before width) := by
  have start := line_start_behind before rest
  have within : (before.reverse.takeWhile (· ≠ lineBreak)).length ≤ before.length := by
    have shorter := (List.takeWhile_prefix (l := before.reverse) (· ≠ lineBreak)).length_le
    rwa [List.length_reverse] at shorter
  refine ⟨?_, _, start, ?_⟩
  · rw [offsets, Int.toNat_natCast, List.take_left, place]
  · simp only [place, offsets, Span.mk.injEq]
    omega

end Offsets

section Rounds

variable {source before taken rest : Bytes} {tokens : List Token} {errors : List LexError}
  {extents : List Span}

/-- A byte from an offset on is taken there or comes later. -/
theorem byte_taken_or_later {index : Nat} {byte : UInt8} (reaches : before.length ≤ index)
    (found : (before ++ (taken ++ rest))[index]? = some byte) :
    (byte ∈ taken ∧ index < before.length + taken.length) ∨
      (before ++ taken).length ≤ index := by
  rw [List.length_append]
  by_cases here : index < before.length + taken.length
  · rw [List.getElem?_append_right reaches, List.getElem?_append_left (by omega)] at found
    exact .inl ⟨List.mem_of_getElem? found, here⟩
  · exact .inr (Nat.le_of_not_lt here)

namespace Parted

theorem finish (source : Bytes) : Parted source source.length [] [] [] where
  stand := fun _ member => nomatch member
  take := .nil
  inside := fun _ member => nomatch member
  tokensInOrder := .nil
  errorsInOrder := .nil
  apart := fun _ member => nomatch member
  cover := by
    intro index byte behind found
    rw [List.getElem?_eq_none behind] at found
    cases found

variable (later : Parted (before ++ (taken ++ rest)) (before ++ taken).length tokens errors extents)
include later

theorem inside_behind {span : Span} (member : span ∈ tokens.map Token.offsets ++ extents) :
    before.length + taken.length ≤ span.first := by
  have bound := (later.inside span member).1
  rwa [List.length_append, Int.natCast_add] at bound

theorem passed (passed : Passed taken rest) :
    Parted (before ++ (taken ++ rest)) before.length tokens errors extents := by
  refine { later with inside := ?_, cover := ?_ }
  · intro span member
    have behind := later.inside_behind member
    exact ⟨by omega, (later.inside span member).2⟩
  · intro index byte reaches found
    rcases byte_taken_or_later reaches found with ⟨member, _⟩ | behind
    · cases passed with
      | lineBreak => exact .inl (List.mem_singleton.mp member)
      | blanks _ all _ => exact .inr (.inl (all byte member))
    · exact later.cover index byte behind found

theorem taken_before {span : Span} (member : span ∈ tokens.map Token.offsets ++ extents) :
    (offsets before taken.length).Before span := by
  have behind := later.inside_behind member
  rw [Span.Before, offsets]
  dsimp only
  omega

section Span

variable {spans : List Span}
  (more : ∀ span, span ∈ spans ↔
    span = offsets before taken.length ∨ span ∈ tokens.map Token.offsets ++ extents)
include more

theorem inside_with (nonempty : taken ≠ []) : ∀ span ∈ spans, (before.length : Int) ≤ span.first ∧
    span.first ≤ span.last ∧ span.last < (before ++ (taken ++ rest)).length := by
  intro span member
  rcases (more span).mp member with rfl | inLater
  · have width : 0 < taken.length := List.length_pos_iff.mpr nonempty
    simp only [offsets, List.length_append, Int.natCast_add]
    omega
  · have behind := later.inside_behind inLater
    exact ⟨by omega, (later.inside span inLater).2⟩

theorem cover_with (index : Nat) (byte : UInt8) (reaches : before.length ≤ index)
    (found : (before ++ (taken ++ rest))[index]? = some byte) :
    byte = lineBreak ∨ byte ∈ blanks ∨ ∃ span ∈ spans, span.first ≤ index ∧ index ≤ span.last := by
  rcases byte_taken_or_later reaches found with ⟨_, within⟩ | behind
  · refine .inr (.inr ⟨offsets before taken.length, (more _).mpr (.inl rfl), ?_⟩)
    simp only [offsets]
    omega
  · rcases later.cover index byte behind found with isBreak | blank | ⟨span, member, inSpan⟩
    · exact .inl isBreak
    · exact .inr (.inl blank)
    · exact .inr (.inr ⟨span, (more span).mpr (.inr member), inSpan⟩)

end Span

theorem token {token : Token} (nonempty : taken ≠ [])
    (here : token.offsets = offsets before taken.length)
    (stands : token.Stands (before ++ (taken ++ rest))) :
    Parted (before ++ (taken ++ rest)) before.length (token :: tokens) errors extents := by
  have more : ∀ span, span ∈ (token :: tokens).map Token.offsets ++ extents ↔
      span = offsets before taken.length ∨ span ∈ tokens.map Token.offsets ++ extents := by
    intro span
    rw [List.map_cons, List.cons_append, List.mem_cons, here]
  refine ⟨?_, later.take, later.inside_with more nonempty, ?_, later.errorsInOrder, ?_,
    later.cover_with more⟩
  · exact List.forall_mem_cons.mpr ⟨stands, later.stand⟩
  · refine .cons ?_ later.tokensInOrder
    intro span member
    rw [here]
    exact later.taken_before (List.mem_append_left _ member)
  · refine List.forall_mem_cons.mpr ⟨?_, later.apart⟩
    intro extent member
    rw [here]
    exact .inl (later.taken_before (List.mem_append_right _ member))

theorem error {error : LexError} (nonempty : taken ≠ [])
    (takes : error.Takes (before ++ (taken ++ rest)) (offsets before taken.length)) :
    Parted (before ++ (taken ++ rest)) before.length tokens (error :: errors)
      (offsets before taken.length :: extents) := by
  have more : ∀ span,
      span ∈ tokens.map Token.offsets ++ offsets before taken.length :: extents ↔
        span = offsets before taken.length ∨ span ∈ tokens.map Token.offsets ++ extents := by
    intro span
    simp only [List.mem_append, List.mem_cons]
    exact or_left_comm
  refine ⟨later.stand, .cons takes later.take, later.inside_with more nonempty,
    later.tokensInOrder, ?_, ?_, later.cover_with more⟩
  · refine .cons ?_ later.errorsInOrder
    intro span member
    exact later.taken_before (List.mem_append_right _ member)
  · intro token inTokens
    refine List.forall_mem_cons.mpr ⟨?_, later.apart token inTokens⟩
    have inSpans := List.mem_append_left extents (List.mem_map_of_mem (f := Token.offsets) inTokens)
    exact .inr (later.taken_before inSpans)

end Parted

theorem round_token_stands {token : Token} {error : Option LexError}
    (round : Round before taken rest (some token) error) :
    token.offsets = offsets before taken.length ∧ token.Stands (before ++ (taken ++ rest)) := by
  have noEnd := (round_token_marks round).1
  cases round with
  | token longest means =>
      refine ⟨rfl, noEnd, ?_, (matches_in_line longest.matched).1, place_is_of before _ _⟩
      exact (offsets_bytes before taken rest).symm

theorem round_error_takes {error : LexError} {token : Option Token}
    (round : Round before taken rest token (some error)) :
    error.Takes (before ++ (taken ++ rest)) (offsets before taken.length) := by
  have bytes := offsets_bytes before taken rest
  cases round with
  | outOfRange longest large =>
      refine .number (place_is_of before _ _) ?_
      rw [bytes]
      exact longest.matched
  | @unexpected _ _ code front visible unmatched =>
      have start := place_is_of before (taken ++ rest) 1
      have first : offsets before 1 = ⟨before.length, before.length⟩ := by simp [offsets]
      rw [first] at start
      have takes := @LexError.Takes.character (before ++ (taken ++ rest)) _
        (offsets before taken.length) code start
      rw [bytes, offsets, Int.toNat_natCast, List.drop_left] at takes
      exact takes front

theorem parted_of_reads {tokens : List Token}
    (reads : Lexicon.Reads before source tokens errors) :
    ∃ words extents, tokens = words ++ [.endOfInput ((before ++ source).count lineBreak)] ∧
      Parted (before ++ source) before.length words errors extents := by
  induction reads with
  | @done before =>
      rw [List.append_nil]
      exact ⟨[], [], rfl, .finish before⟩
  | @round before taken rest token error tokens errors first later induction =>
      have nonempty := first.taken_ne_nil
      rw [List.append_assoc] at induction
      obtain ⟨words, extents, rfl, parted⟩ := induction
      cases first with
      | passed passed => exact ⟨words, extents, rfl, parted.passed passed⟩
      | token longest means =>
          obtain ⟨here, stands⟩ := round_token_stands (.token longest means)
          exact ⟨_ :: words, extents, rfl, parted.token nonempty here stands⟩
      | outOfRange longest large =>
          exact ⟨words, _, rfl,
            parted.error nonempty (round_error_takes (.outOfRange longest large))⟩
      | unexpected front visible unmatched =>
          exact ⟨words, _, rfl,
            parted.error nonempty (round_error_takes (.unexpected front visible unmatched))⟩

end Rounds

/-- The tokens of a source stand where their offsets, lines and columns say. With the extents of the
errors they follow one another, nothing but blanks is left between them, and the mark for the end
comes last. -/
theorem tokens_and_errors_partition (source : Bytes) :
    ∃ words extents, (lex source).tokens = words ++ [.endOfInput (source.count lineBreak)] ∧
      Parted source 0 words (lex source).errors extents :=
  parted_of_reads (reads_lex source)

end ExprCompiler
