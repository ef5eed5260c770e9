import ExprCompiler.Proofs.Codegen.Names
import ExprCompiler.Proofs.Token.Unique

/-!
Reading a source is reading it by its lexicon. Each piece that a source is cut into is what one
round takes off its front, and the cursor always stands at the place of the bytes behind it.
-/

namespace ExprCompiler

open Lexicon

structure Cursor.Behind (before : Bytes) (cursor : Cursor) : Prop where
  offset : cursor.offset = before.length
  line : cursor.line = before.count lineBreak
  lineStart : cursor.lineStart + (before.reverse.takeWhile (· ≠ lineBreak)).length = before.length

namespace Cursor.Behind

variable {before : Bytes} {cursor : Cursor}

theorem start : Behind [] {} := ⟨rfl, rfl, rfl⟩

theorem position (behind : cursor.Behind before) (width : Nat) :
    cursor.position width = place before width := by
  have column : (cursor.offset : Int) - cursor.lineStart =
      (before.reverse.takeWhile (· ≠ lineBreak)).length := by
    have split := behind.lineStart
    rw [← behind.offset] at split
    omega
  have last : (cursor.offset : Int) + width - 1 - cursor.lineStart =
      (before.reverse.takeWhile (· ≠ lineBreak)).length + width - 1 := by
    omega
  rw [Cursor.position, place, column, last, behind.line]

theorem offsets (behind : cursor.Behind before) (width : Nat) :
    cursor.offsets width = Lexicon.offsets before width := by
  rw [Cursor.offsets, Lexicon.offsets, behind.offset]

theorem newline (behind : cursor.Behind before) :
    (cursor.advance .newline).Behind (before ++ [lineBreak]) where
  offset := by simp [Cursor.advance, behind.offset]
  line := by simp [Cursor.advance, behind.line]
  lineStart := by simp [Cursor.advance, behind.offset]

theorem within_line (behind : cursor.Behind before) {text : Bytes} (noBreak : lineBreak ∉ text) :
    Behind (before ++ text) { cursor with offset := cursor.offset + text.length } where
  offset := by simp [behind.offset]
  line := by simp [behind.line, List.count_eq_zero.mpr noBreak]
  lineStart := by
    have all : ∀ byte ∈ text.reverse, decide (byte ≠ lineBreak) = true := by
      intro byte member
      rw [decide_eq_true_eq]
      rintro rfl
      exact noBreak (List.mem_reverse.mp member)
    have column := behind.lineStart
    rw [List.reverse_append, List.takeWhile_append_of_pos all, List.length_append,
      List.length_reverse, List.length_append]
    dsimp only
    omega

theorem advance (behind : cursor.Behind before) {piece : Piece}
    (noBreak : piece = .newline ∨ lineBreak ∉ piece.text) :
    (cursor.advance piece).Behind (before ++ piece.text) := by
  rcases noBreak with rfl | noBreak
  · exact behind.newline
  · cases piece with
    | newline => exact behind.newline
    | _ => exact behind.within_line noBreak

end Cursor.Behind

namespace Piece

theorem length_le_take {test : UInt8 → Bool} {front source : Bytes}
    (all : ∀ byte ∈ front, test byte = true) (isFront : front <+: source) :
    front.length ≤ (source.takeWhile test).length := by
  obtain ⟨behind, rfl⟩ := isFront
  rw [List.takeWhile_append_of_pos all, List.length_append]
  exact Nat.le_add_right _ _

theorem value_from_underscore (start : Nat) (rest : Bytes) :
    valueFrom start (Text.underscore :: rest) = valueFrom start rest := by
  simp [valueFrom]

theorem value_from_digit {byte : UInt8} (digit : isDigit byte = true) (start : Nat) (rest : Bytes) :
    valueFrom start (byte :: rest) = valueFrom (10 * start + (byte.toNat - 48)) rest := by
  have other : byte ≠ Text.underscore := by
    rintro rfl
    exact absurd digit (by decide)
  simp [valueFrom, other]

theorem le_value_from (start : Nat) (number : Bytes) : start ≤ valueFrom start number := by
  unfold valueFrom
  induction number.filter (· ≠ Text.underscore) generalizing start with
  | nil => exact Nat.le_refl start
  | cons digit rest induction =>
      rw [List.foldl_cons]
      exact Nat.le_trans (by omega) (induction _)

theorem digit_value {byte : UInt8} (digit : isDigit byte = true) :
    Text.digitValue? byte = some (byte.toNat - 48) ∧ byte.toNat - 48 < 10 := by
  simp only [isDigit, Bool.and_eq_true, decide_eq_true_eq, UInt8.le_iff_toNat_le,
    UInt8.reduceToNat] at digit
  have range : (decide (48 ≤ byte.toNat) && decide (byte.toNat ≤ 57)) = true := by
    simp [digit]
  refine ⟨?_, by omega⟩
  unfold Text.digitValue?
  exact if_pos range

/-- Digits are read with a limit: the reader stops early where the value passes it. -/
theorem read_digits_value {limit start : Nat} {number : Bytes} (below : start ≤ limit)
    (parts : ∀ byte ∈ number, isNumberPart byte = true) :
    Text.readDigits 10 limit start number =
      if valueFrom start number ≤ limit then .ok (valueFrom start number)
      else .error .outOfRange := by
  induction number generalizing start with
  | nil => exact (if_pos below).symm
  | cons byte number induction =>
      have later : ∀ byte ∈ number, isNumberPart byte = true :=
        fun other member => parts other (List.mem_cons_of_mem byte member)
      have part := parts byte List.mem_cons_self
      rw [isNumberPart, Bool.or_eq_true, beq_iff_eq] at part
      rw [Text.readDigits]
      rcases part with digit | isUnderscore
      · have other : byte ≠ Text.underscore := by
          rintro rfl
          exact absurd digit (by decide)
        obtain ⟨value, small⟩ := digit_value digit
        rw [if_neg other, value, value_from_digit digit, Nat.mul_comm 10 start]
        dsimp only
        rw [if_neg (by omega)]
        by_cases past : limit < start * 10 + (byte.toNat - 48)
        · have least := le_value_from (start * 10 + (byte.toNat - 48)) number
          rw [if_pos past, if_neg (by omega)]
        · rw [if_neg past, induction (Nat.not_lt.mp past) later]
      · have same : byte = Text.underscore := isUnderscore
        rw [if_pos same, induction below later, same, value_from_underscore]

theorem number_value {number : Bytes} (parts : ∀ byte ∈ number, isNumberPart byte = true) :
    numberValue? number = if valueOf number ≤ 2147483647 then some (valueOf number) else none := by
  have read : Text.readDigits 10 largestLiteral 0 number =
      if valueOf number ≤ largestLiteral then .ok (valueOf number) else .error .outOfRange :=
    read_digits_value (Nat.zero_le _) parts
  rw [numberValue?, read]
  unfold largestLiteral
  split <;> rename_i found <;> split at found <;> cases found
  · rw [if_pos ‹_›]
  · rw [if_neg ‹_›]

section Fits

variable {before rest : Bytes} {cursor : Cursor} {byte : UInt8}

/-- A piece that one round takes off the front of a source. -/
def Fits (before : Bytes) (cursor : Cursor) (source : Bytes) (piece : Piece) : Prop :=
  (piece = .newline ∨ lineBreak ∉ piece.text) ∧
    ∃ left, source = piece.text ++ left ∧
      Round before piece.text left (piece.token? cursor) (piece.error? cursor)

theorem matches_at {pattern : Pattern} {lexeme : Bytes} (matched : Matches pattern lexeme)
    (front : lexeme <+: byte :: rest) :
    ∃ later, lexeme = byte :: later ∧ later <+: rest ∧ patternOf byte = pattern := by
  obtain ⟨first, later, rfl, isPattern, _⟩ := matches_start matched
  obtain ⟨behind, split⟩ := front
  obtain ⟨rfl, inRest⟩ := List.cons.inj split
  exact ⟨later, rfl, ⟨behind, inRest⟩, isPattern⟩

/-- Two matches at one place are of one pattern. -/
theorem same_pattern {pattern other : Pattern} {later longer : Bytes}
    (matched : Matches pattern (byte :: later)) (matched' : Matches other longer)
    (front : longer <+: byte :: rest) : other = pattern := by
  obtain ⟨_, _, _, isOther⟩ := matches_at matched' front
  obtain ⟨_, _, same, isPattern, _⟩ := matches_start matched
  rw [← isOther, ← isPattern, (List.cons.inj same).1]

theorem not_passed (visible : Lexicon.IsVisible byte) {run left : Bytes}
    (same : run ++ left = byte :: rest) : ¬Passed run left := by
  intro passed
  obtain ⟨first, later, rfl, hidden⟩ := passed.start
  rw [(List.cons.inj same).1] at hidden
  exact hidden visible

theorem no_break_of_all {test : UInt8 → Bool} {text : Bytes} (stops : test lineBreak = false)
    (all : ∀ byte ∈ text, test byte = true) : lineBreak ∉ text := by
  intro member
  rw [all lineBreak member] at stops
  cases stops

theorem all_taken (test : UInt8 → Bool) (text : Bytes) :
    ∀ byte ∈ text.takeWhile test, test byte = true :=
  fun byte member => List.all_eq_true.mp List.all_takeWhile byte member

theorem all_run {test : UInt8 → Bool} (here : test byte = true) (rest : Bytes) :
    ∀ part ∈ byte :: rest.takeWhile test, test part = true := by
  intro part member
  rcases List.mem_cons.mp member with rfl | inRest
  · exact here
  · exact all_taken test rest part inRest

theorem run_split (test : UInt8 → Bool) (byte : UInt8) (rest : Bytes) :
    byte :: rest = (byte :: rest.takeWhile test) ++ rest.dropWhile test := by
  rw [List.cons_append, List.takeWhile_append_dropWhile]

theorem word_part {byte : UInt8} :
    isWordPart byte = true ↔ byte ∈ letters ∨ byte ∈ digits := by
  rw [mem_letters, mem_digits, isWordPart, Bool.or_eq_true]

theorem number_part {byte : UInt8} :
    isNumberPart byte = true ↔ byte ∈ digits ∨ byte = Text.underscore := by
  rw [mem_digits, isNumberPart, Bool.or_eq_true, beq_iff_eq]
  rfl

theorem quotable {byte : UInt8} :
    isQuotable byte = true ↔ byte ≠ Text.doubleQuote ∧ byte ≠ lineBreak := by
  rw [isQuotable, Bool.and_eq_true, bne_iff_ne, bne_iff_ne]
  rfl

theorem word_means (word : Bytes) : Means .word word (TokenKind.ofWord word) .absent := by
  unfold TokenKind.ofWord
  cases found : TokenKind.keywords.find? fun entry => utf8 entry.1 == word with
  | none =>
      apply Means.identifier
      intro entry listed same
      exact absurd (beq_iff_eq.mpr same) (List.find?_eq_none.mp found entry listed)
  | some entry =>
      have same := List.find?_some found
      rw [beq_iff_eq] at same
      rw [← same]
      exact .keyword (List.mem_of_find?_eq_some found)

/-- Where all that matches is a run of parts behind the first byte, the whole run is the longest
match. -/
theorem longest_run {pattern : Pattern} {test : UInt8 → Bool}
    (matched : Matches pattern (byte :: rest.takeWhile test))
    (parts : ∀ later, Matches pattern (byte :: later) → ∀ part ∈ later, test part = true) :
    Longest (byte :: rest) pattern (byte :: rest.takeWhile test) where
  matched := matched
  front := ⟨rest.dropWhile test, (run_split test byte rest).symm⟩
  longest := by
    intro other longer matched' front
    obtain rfl := same_pattern matched matched' front
    obtain ⟨later, rfl, inRest, _⟩ := matches_at matched' front
    exact Nat.succ_le_succ (length_le_take (parts later matched') inRest)

theorem longest_word (start : isWordStart byte = true) :
    Longest (byte :: rest) .word (byte :: rest.takeWhile isWordPart) := by
  apply longest_run
  · exact .word ((mem_letters byte).mpr start) fun other member =>
      word_part.mp (all_taken isWordPart rest other member)
  · intro later matched part member
    cases matched with
    | word _ parts => exact word_part.mpr (parts part member)

theorem longest_number (digit : isDigit byte = true) :
    Longest (byte :: rest) .number (byte :: rest.takeWhile isNumberPart) := by
  apply longest_run
  · exact .number ((mem_digits byte).mpr digit) fun other member =>
      number_part.mp (all_taken isNumberPart rest other member)
  · intro later matched part member
    cases matched with
    | number _ parts => exact number_part.mpr (parts part member)

theorem fits_word (behind : cursor.Behind before) (start : isWordStart byte = true) :
    Fits before cursor (byte :: rest) (.word (byte :: rest.takeWhile isWordPart)) := by
  have noBreak : lineBreak ∉ byte :: rest.takeWhile isWordPart :=
    no_break_of_all (by decide) (identifier_of_word_start start rest).parts
  refine ⟨.inr noBreak, _, run_split isWordPart byte rest, ?_⟩
  simp only [token?, error?, text, behind.position, behind.offsets]
  exact .token (run_split isWordPart byte rest ▸ longest_word start) (word_means _)

theorem fits_number (behind : cursor.Behind before) (digit : isDigit byte = true) :
    Fits before cursor (byte :: rest) (.number (byte :: rest.takeWhile isNumberPart)) := by
  have parts := all_run (number_part.mpr (.inl ((mem_digits byte).mpr digit))) rest
  have longest := run_split isNumberPart byte rest ▸ @longest_number rest byte digit
  refine ⟨.inr (no_break_of_all (by decide) parts), _, run_split isNumberPart byte rest, ?_⟩
  simp only [token?, error?, text, behind.position, behind.offsets]
  by_cases small : valueOf (byte :: rest.takeWhile isNumberPart) ≤ 2147483647
  · rw [number_value parts, if_pos small]
    exact .token longest (.number small)
  · rw [number_value parts, if_neg small]
    exact .outOfRange longest (Nat.not_le.mp small)

theorem fits_blanks (blank : isBlank byte = true) :
    Fits before cursor (byte :: rest) (.blanks (byte :: rest.takeWhile isBlank)) := by
  have all := all_run blank rest
  refine ⟨.inr (no_break_of_all (by decide) all), _, run_split isBlank byte rest, ?_⟩
  apply Round.passed
  apply Passed.blanks (List.cons_ne_nil _ _)
  · intro part member
    exact (mem_blanks part).mpr (all part member)
  · intro next isNext isBlankNext
    have stops := List.head?_dropWhile_not isBlank rest
    rw [Option.mem_def.mp isNext] at stops
    have noBlank : isBlank next = false := stops
    rw [(mem_blanks next).mp isBlankNext] at noBlank
    cases noBlank

theorem fits_newline : Fits before cursor (lineBreak :: rest) .newline :=
  ⟨.inl rfl, rest, rfl, .passed .lineBreak⟩

/-- What matches behind a quote is closed by the first byte that a text cannot hold. -/
theorem quote_closes {pattern : Pattern} {lexeme : Bytes} (matched : Matches pattern lexeme)
    (front : lexeme <+: Text.doubleQuote :: rest) :
    lexeme = Text.doubleQuote :: (rest.takeWhile isQuotable ++ [Text.doubleQuote]) ∧
      ∃ left, rest.dropWhile isQuotable = Text.doubleQuote :: left := by
  obtain ⟨later, rfl, ⟨left, split⟩, isPattern⟩ := matches_at matched front
  have isText : pattern = .text := isPattern.symm.trans (by decide +kernel)
  subst isText
  cases matched with
  | @text content parts =>
      have all : ∀ part ∈ content, isQuotable part = true :=
        fun part member => quotable.mpr (parts part member)
      have stops : isQuotable Text.doubleQuote ≠ true := by decide
      rw [List.append_assoc, List.singleton_append] at split
      have taken : rest.takeWhile isQuotable = content := by
        rw [← split, List.takeWhile_append_of_pos all, List.takeWhile_cons_of_neg stops,
          List.append_nil]
      refine ⟨by rw [taken], left, ?_⟩
      rw [← split, List.dropWhile_append_of_pos all, List.dropWhile_cons_of_neg stops]

theorem fits_quoted (behind : cursor.Behind before) {left : Bytes}
    (closed : rest.dropWhile isQuotable = Text.doubleQuote :: left) :
    Fits before cursor (Text.doubleQuote :: rest) (.quoted (rest.takeWhile isQuotable)) := by
  have split : Text.doubleQuote :: rest =
      (quoted (rest.takeWhile isQuotable)).text ++ left := by
    rw [text, List.cons_append, List.append_assoc, List.singleton_append, ← closed,
      List.takeWhile_append_dropWhile]
  have all := all_taken isQuotable rest
  have noBreak : lineBreak ∉ (quoted (rest.takeWhile isQuotable)).text := by
    have inside := no_break_of_all (by decide) all
    have other : lineBreak ≠ Text.doubleQuote := by decide
    simp [text, inside, other]
  refine ⟨.inr noBreak, left, split, ?_⟩
  simp only [token?, error?, behind.position, behind.offsets]
  refine .token ⟨.text fun part member => quotable.mp (all part member), ⟨left, rfl⟩, ?_⟩ .text
  intro other longer matched front
  rw [← split] at front
  rw [(quote_closes matched front).1]
  exact Nat.le_refl _

theorem fits_open_quote (behind : cursor.Behind before)
    (isOpen : ∀ left, rest.dropWhile isQuotable ≠ Text.doubleQuote :: left) :
    Fits before cursor (Text.doubleQuote :: rest) .openQuote := by
  refine ⟨.inr (by decide), rest, rfl, ?_⟩
  simp only [token?, error?, text, behind.position]
  refine @Round.unexpected _ [Text.doubleQuote] rest 34 (character_iff_glyph.mpr rfl) ?_ ?_
  · intro run left split
    exact not_passed (by decide +kernel) split
  · intro pattern lexeme matched front
    obtain ⟨_, left, closed⟩ := quote_closes matched front
    exact isOpen left closed

theorem fits_after_quote (behind : cursor.Behind before) :
    Fits before cursor (Text.doubleQuote :: rest) (afterQuote rest) := by
  unfold afterQuote
  split
  · rename_i left closed
    exact fits_quoted behind closed
  · rename_i notClosed
    exact fits_open_quote behind notClosed

theorem listed_operator {entry : String × TokenKind} (listed : entry ∈ operators) :
    ∃ byte ∈ (utf8 entry.1).head?,
      utf8 entry.1 = [byte] ∧ shortOperator? byte = some entry.2 ∨
        utf8 entry.1 = [byte, 0x3d] ∧ longOperator? byte = some entry.2 := by
  have checked : ∀ entry ∈ operators, ∃ byte ∈ (utf8 entry.1).head?,
      utf8 entry.1 = [byte] ∧ shortOperator? byte = some entry.2 ∨
        utf8 entry.1 = [byte, 0x3d] ∧ longOperator? byte = some entry.2 := by
    decide +kernel
  exact checked entry listed

def isListed (text : Bytes) (kind : TokenKind) : Bool :=
  operators.any fun entry => utf8 entry.1 == text && entry.2 == kind

theorem means_of_listed {text : Bytes} {kind : TokenKind} (listed : isListed text kind = true) :
    Matches .operator text ∧ Means .operator text kind .absent := by
  obtain ⟨entry, inTable, same⟩ := List.any_eq_true.mp listed
  rw [Bool.and_eq_true, beq_iff_eq, beq_iff_eq] at same
  obtain ⟨rfl, rfl⟩ := same
  exact ⟨.operator inTable, .operator inTable⟩

theorem short_listed {kind : TokenKind} (found : shortOperator? byte = some kind) :
    isListed [byte] kind = true := by
  have checked := @forall_byte (fun byte => (shortOperator? byte).all (isListed [byte]))
    (by decide +kernel) byte
  rwa [found] at checked

theorem long_listed {kind : TokenKind} (found : longOperator? byte = some kind) :
    isListed [byte, 0x3d] kind = true := by
  have checked := @forall_byte (fun byte => (longOperator? byte).all (isListed [byte, 0x3d]))
    (by decide +kernel) byte
  rwa [found] at checked

def LongAt (byte : UInt8) (rest : Bytes) : Prop :=
  (longOperator? byte).isSome = true ∧ ∃ later, rest = 0x3d :: later

theorem operator_at {lexeme : Bytes} (matched : Matches .operator lexeme)
    (front : lexeme <+: byte :: rest) :
    lexeme = [byte] ∧ (shortOperator? byte).isSome = true ∨
      lexeme = [byte, 0x3d] ∧ LongAt byte rest := by
  obtain ⟨behind, split⟩ := front
  cases matched with
  | operator listed =>
      obtain ⟨first, _, ⟨text, short⟩ | ⟨text, long⟩⟩ := listed_operator listed
      · rw [text] at split
        obtain ⟨rfl, _⟩ := List.cons.inj split
        exact .inl ⟨text, by rw [short]; rfl⟩
      · rw [text] at split
        obtain ⟨rfl, inRest⟩ := List.cons.inj split
        exact .inr ⟨text, by rw [long]; rfl, behind, inRest.symm⟩

theorem operator_cases (byte : UInt8) (rest : Bytes) :
    (∃ kind, operator? byte rest = some (.operator kind [byte, 0x3d]) ∧
        longOperator? byte = some kind ∧ LongAt byte rest) ∨
      ¬LongAt byte rest ∧
        operator? byte rest = (shortOperator? byte).map fun kind => .operator kind [byte] := by
  unfold operator?
  split
  · rename_i kind later long
    exact .inl ⟨kind, rfl, long, by rw [long]; rfl, later, rfl⟩
  · rename_i notLong
    refine .inr ⟨?_, rfl⟩
    rintro ⟨isLong, later, rfl⟩
    obtain ⟨kind, long⟩ := Option.isSome_iff_exists.mp isLong
    exact notLong kind later long rfl

theorem fits_listed {kind : TokenKind} {first left : Bytes} (behind : cursor.Behind before)
    (listed : isListed (byte :: first) kind = true) (noBreak : lineBreak ∉ byte :: first)
    (longest : ∀ lexeme, Matches .operator lexeme → lexeme <+: byte :: (first ++ left) →
      lexeme.length ≤ (byte :: first).length) :
    Fits before cursor (byte :: (first ++ left)) (.operator kind (byte :: first)) := by
  obtain ⟨matched, means⟩ := means_of_listed listed
  refine ⟨.inr noBreak, left, rfl, ?_⟩
  simp only [token?, error?, text, behind.position, behind.offsets]
  refine .token ⟨matched, ⟨left, rfl⟩, ?_⟩ means
  intro other longer matched' front
  obtain rfl := same_pattern matched matched' front
  exact longest longer matched' front

theorem fits_operator {piece : Piece} (behind : cursor.Behind before) (notBreak : byte ≠ lineBreak)
    (found : operator? byte rest = some piece) : Fits before cursor (byte :: rest) piece := by
  rcases operator_cases byte rest with ⟨kind, isPiece, long, _, later, rfl⟩ | ⟨notLong, isPiece⟩
  · cases found.symm.trans isPiece
    have notEqual : lineBreak ≠ 0x3d := by decide
    apply @fits_listed before cursor byte kind [0x3d] later behind (long_listed long)
      (by simp [notBreak.symm, notEqual])
    intro lexeme matched front
    rcases operator_at matched front with ⟨rfl, _⟩ | ⟨rfl, _⟩ <;> simp
  · rw [isPiece] at found
    obtain ⟨kind, short, rfl⟩ := Option.map_eq_some_iff.mp found
    -- A match of two bytes would make the longer operator stand here.
    apply @fits_listed before cursor byte kind [] rest behind (short_listed short)
      (by simp [notBreak.symm])
    intro lexeme matched front
    rcases operator_at matched front with ⟨rfl, _⟩ | ⟨_, isLong⟩
    · exact Nat.le_refl _
    · exact absurd isLong notLong

structure IsOther (byte : UInt8) : Prop where
  word : isWordStart byte ≠ true
  digit : isDigit byte ≠ true
  quote : byte ≠ Text.doubleQuote
  newline : byte ≠ lineBreak
  blank : isBlank byte ≠ true

theorem IsOther.pattern (other : IsOther byte) : patternOf byte = .operator := by
  rw [patternOf, if_neg (mt (mem_letters byte).mp other.word),
    if_neg (mt (mem_digits byte).mp other.digit), if_neg other.quote]

theorem IsOther.visible (other : IsOther byte) : Lexicon.IsVisible byte :=
  ⟨other.newline, mt (mem_blanks byte).mp other.blank⟩

/-- Only operators start with such a byte, and one that matched would have been found. -/
theorem IsOther.unmatched {pattern : Pattern} {lexeme : Bytes} (other : IsOther byte)
    (noOperator : operator? byte rest = none) (matched : Matches pattern lexeme) :
    ¬lexeme <+: byte :: rest := by
  intro front
  obtain ⟨_, _, _, isPattern⟩ := matches_at matched front
  rw [← isPattern, other.pattern] at matched
  rcases operator_cases byte rest with ⟨_, found, _⟩ | ⟨notLong, found⟩
  · cases noOperator.symm.trans found
  · rw [noOperator, eq_comm, Option.map_eq_none_iff] at found
    rcases operator_at matched front with ⟨_, short⟩ | ⟨_, isLong⟩
    · rw [found] at short
      cases short
    · exact notLong isLong

theorem glyph_no_break (notBreak : byte ≠ lineBreak) (rest : Bytes) :
    lineBreak ∉ (Text.firstGlyph byte rest).bytes := by
  obtain ⟨whole, taken, left, _, bytes⟩ := Text.first_glyph_shape byte rest
  rcases whole with ⟨ascii, _, glyph⟩ | high
  · rw [glyph] at bytes ⊢
    obtain ⟨rfl, _⟩ := List.cons.inj bytes
    exact fun member => notBreak (List.mem_singleton.mp member).symm
  · intro member
    exact absurd (high lineBreak member) (by decide)

theorem fits_stray (behind : cursor.Behind before) (other : IsOther byte)
    (noOperator : operator? byte rest = none) :
    Fits before cursor (byte :: rest) (.stray (Text.firstGlyph byte rest)) := by
  obtain ⟨_, taken, left, same, bytes⟩ := Text.first_glyph_shape byte rest
  have split : byte :: rest = (Text.firstGlyph byte rest).bytes ++ left := by
    rw [bytes, List.cons_append, same]
  have notQuote : (Text.firstGlyph byte rest).bytes ≠ [Text.doubleQuote] := by
    rw [bytes]
    exact fun same => other.quote (List.cons.inj same).1
  have cause : LexCause.strayCharacter (Text.firstGlyph byte rest).code =
      unexpected (Text.firstGlyph byte rest).bytes (Text.firstGlyph byte rest).code :=
    (if_neg notQuote).symm
  refine ⟨.inr (glyph_no_break other.newline rest), left, split, ?_⟩
  simp only [token?, error?, text, behind.position, cause]
  apply Round.unexpected
  · rw [← split]
    exact character_iff_glyph.mpr rfl
  · intro run later taken
    rw [← split] at taken
    exact not_passed other.visible taken
  · intro pattern lexeme matched
    rw [← split]
    exact other.unmatched noOperator matched

theorem fits_first (behind : cursor.Behind before) (byte : UInt8) (rest : Bytes) :
    Fits before cursor (byte :: rest) (first byte rest) := by
  unfold first
  split
  · exact fits_word behind ‹_›
  · split
    · exact fits_number behind ‹_›
    · split
      · subst byte
        exact fits_after_quote behind
      · split
        · subst byte
          exact fits_newline
        · split
          · exact fits_blanks ‹_›
          · have other : IsOther byte := ⟨‹_›, ‹_›, ‹_›, ‹_›, ‹_›⟩
            cases found : operator? byte rest with
            | some piece => exact fits_operator behind other.newline found
            | none => exact fits_stray behind other found

end Fits

end Piece
/-- Reading a source follows its lexicon, from wherever the cursor stands. -/
theorem reads_pieces {before : Bytes} {cursor : Cursor} (behind : cursor.Behind before)
    (source : Bytes) :
    Lexicon.Reads before source
      (tokensFrom cursor (pieces source) ++
        [.endOfInput ((pieces source).foldl Cursor.advance cursor).line])
      (errorsFrom cursor (pieces source)) := by
  -- Each piece moves the cursor and adds to the bytes behind it, in step.
  fun_induction pieces source generalizing before cursor with
  | case1 =>
      rw [List.foldl_nil, behind.line]
      exact .done
  | case2 byte rest induction =>
      obtain ⟨noBreak, left, split, round⟩ := Piece.fits_first behind byte rest
      have later : rest.drop ((Piece.first byte rest).text.length - 1) = left := by
        have same := congrArg (List.drop (Piece.first byte rest).text.length) split
        obtain ⟨taken, others, isText⟩ := List.exists_cons_of_ne_nil round.taken_ne_nil
        rw [List.drop_left, isText, List.length_cons, List.drop_succ_cons] at same
        rw [isText, List.length_cons, Nat.add_sub_cancel, same]
      rw [later] at induction ⊢
      rw [split, tokensFrom, errorsFrom, List.foldl_cons, List.append_assoc]
      exact .round round (induction (behind.advance noBreak))

theorem reads_lex (source : Bytes) :
    Lexicon.Reads [] source (lex source).tokens (lex source).errors :=
  reads_pieces Cursor.Behind.start source

theorem lex_words (source : Bytes) : ∃ words finish, (lex source).tokens = words ++ [finish] ∧
    finish.kind = .eof ∧ ∀ token ∈ words, token.kind ≠ .eof :=
  ⟨_, _, rfl, rfl, fun token member => (tokens_from_shaped (pieces_shaped source) token member).1⟩

/-- Reading a source gives just what its lexicon says, and ends with one mark for the end. -/
theorem lex_iff_reads (source : Bytes) (result : Lexed) :
    (lex source = result ↔ Lexicon.Reads [] source result.tokens result.errors) ∧
      ∃ body line, (lex source).tokens = body ++ [.endOfInput line] ∧
        ∀ token ∈ body, token.kind ≠ .eof := by
  have reads : Lexicon.Reads [] source (lex source).tokens (lex source).errors :=
    reads_pieces Cursor.Behind.start source
  refine ⟨⟨?_, ?_⟩, ?_⟩
  · rintro rfl
    exact reads
  · intro reads'
    obtain ⟨sameTokens, sameErrors⟩ := reads.unique reads'
    cases result
    cases sameTokens
    cases sameErrors
    rfl
  · refine ⟨_, _, rfl, ?_⟩
    intro token member
    exact (tokens_from_shaped (pieces_shaped source) token member).1

end ExprCompiler
