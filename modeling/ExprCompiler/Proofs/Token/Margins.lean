import ExprCompiler.Proofs.Text.Ascii
import ExprCompiler.Proofs.Token.LongestMatch

/-!
White space around a source. A source without an error and without text literals is ASCII, and what
trimming takes off its ends are blanks and line breaks. What is left is read as the same tokens at
other places.
-/

namespace ExprCompiler

def Token.unplaced (token : Token) : Token :=
  { token with position := ⟨0, .empty⟩, offsets := .empty }

namespace Text

variable {text : Bytes}

theorem Tight.trim_framed {front back : Bytes} (tight : Tight text) (some : text ≠ [])
    (inFront : ∀ byte ∈ front, byte.toNat < 0x80 ∧ isBlankByte byte = true)
    (behind : ∀ byte ∈ back, byte.toNat < 0x80 ∧ isBlankByte byte = true) :
    Text.trim (front ++ text ++ back) = text := by
  have ascii : Ascii (front ++ text ++ back) := by
    rw [ascii_append, ascii_append]
    exact ⟨⟨fun byte member => (inFront byte member).1, tight.ascii⟩,
      fun byte member => (behind byte member).1⟩
  have frontDropped : (front ++ text ++ back).dropWhile isBlankByte = text ++ back := by
    rw [List.append_assoc, List.dropWhile_append_of_pos fun byte member => (inFront byte member).2]
    apply drop_while_of_head
    intro byte member
    rw [List.head?_append, List.head?_eq_some_head some, Option.some_or,
      ← List.head?_eq_some_head some] at member
    exact tight.starts byte member
  have backDropped : (back.reverse ++ text.reverse).dropWhile isBlankByte = text.reverse := by
    rw [List.dropWhile_append_of_pos fun byte member => (behind byte (List.mem_reverse.mp member)).2]
    apply drop_while_of_head
    intro byte member
    rw [List.head?_reverse] at member
    exact tight.ends byte member
  rw [trim_ascii ascii, frontDropped, List.reverse_append, backDropped, List.reverse_reverse]

/-- What trimming takes off an ASCII text is white space, and what it leaves is tight. -/
theorem trim_splits (ascii : Ascii text) :
    ∃ front back, text = front ++ trim text ++ back ∧ Tight (trim text) ∧
      (∀ byte ∈ front, isBlankByte byte = true) ∧ ∀ byte ∈ back, isBlankByte byte = true := by
  have frontSplit := @List.takeWhile_append_dropWhile _ isBlankByte text
  have backSplit :=
    @List.takeWhile_append_dropWhile _ isBlankByte (text.dropWhile isBlankByte).reverse
  rw [trim_ascii ascii]
  generalize inFront : text.takeWhile isBlankByte = front at frontSplit
  generalize left : text.dropWhile isBlankByte = later at frontSplit backSplit ⊢
  generalize behind : later.reverse.takeWhile isBlankByte = back at backSplit
  generalize core : later.reverse.dropWhile isBlankByte = middle at backSplit ⊢
  have laterSplit : later = middle.reverse ++ back.reverse := by
    rw [← List.reverse_append, backSplit, List.reverse_reverse]
  have split : text = front ++ middle.reverse ++ back.reverse := by
    rw [List.append_assoc, ← laterSplit, frontSplit]
  refine ⟨front, back.reverse, split, ⟨?_, ?_, ?_⟩, ?_, ?_⟩
  · rw [split, ascii_append, ascii_append] at ascii
    exact ascii.1.2
  · intro byte member
    have visible := List.head?_dropWhile_not isBlankByte text
    rw [left, laterSplit, List.head?_append, Option.mem_def.mp member, Option.some_or] at visible
    simpa using visible
  · intro byte member
    have visible := List.head?_dropWhile_not isBlankByte later.reverse
    rw [core, ← List.getLast?_reverse, Option.mem_def.mp member] at visible
    simpa using visible
  · rw [← inFront]
    exact fun byte member => List.all_eq_true.mp (List.all_takeWhile) byte member
  · rw [← behind]
    exact fun byte member =>
      List.all_eq_true.mp (List.all_takeWhile) byte (List.mem_reverse.mp member)

end Text

namespace Lexicon

/-- A byte that a source without text literals can hold: white space to the lexicon is what
trimming takes off. -/
def IsPlain (byte : UInt8) : Prop :=
  byte.toNat < 0x80 ∧ (Text.isBlankByte byte = true ↔ ¬IsVisible byte)

instance (byte : UInt8) : Decidable (IsPlain byte) := inferInstanceAs (Decidable (_ ∧ _))

theorem matches_plain {pattern : Pattern} {lexeme : Bytes} (matched : Matches pattern lexeme)
    (noText : pattern ≠ .text) : ∀ byte ∈ lexeme, IsPlain byte ∧ IsVisible byte := by
  have inLetters : ∀ byte ∈ letters, IsPlain byte ∧ IsVisible byte := by decide +kernel
  have inDigits : ∀ byte ∈ digits, IsPlain byte ∧ IsVisible byte := by decide +kernel
  cases matched with
  | @operator entry listed =>
      have all : ∀ entry ∈ operators, ∀ byte ∈ utf8 entry.1, IsPlain byte ∧ IsVisible byte := by
        decide +kernel
      exact all entry listed
  | word starts parts =>
      intro byte member
      rcases List.mem_cons.mp member with rfl | later
      · exact inLetters byte starts
      · exact (parts byte later).elim (inLetters byte) (inDigits byte)
  | number starts parts =>
      intro byte member
      rcases List.mem_cons.mp member with rfl | later
      · exact inDigits byte starts
      · rcases parts byte later with digit | rfl
        · exact inDigits byte digit
        · decide +kernel
  | text => exact absurd rfl noText

theorem Passed.hidden {run rest : Bytes} (passed : Passed run rest) :
    ∀ byte ∈ run, IsPlain byte ∧ ¬IsVisible byte := by
  cases passed with
  | lineBreak => decide +kernel
  | blanks _ all _ =>
      have inBlanks : ∀ byte ∈ Lexicon.blanks, IsPlain byte ∧ ¬IsVisible byte := by decide +kernel
      exact fun byte member => inBlanks byte (all byte member)

section Rounds

variable {before taken rest : Bytes} {token : Option Token}

/-- What a round without an error takes, unless it is a text literal, is all visible or all not. -/
theorem Round.plain (round : Round before taken rest token none)
    (noText : ∀ found ∈ token, found.kind ≠ .string) :
    (∀ byte ∈ taken, IsPlain byte) ∧
      ((token = none ∧ ∀ byte ∈ taken, ¬IsVisible byte) ∨ ∀ byte ∈ taken, IsVisible byte) := by
  cases round with
  | passed passed =>
      have hidden := passed.hidden
      exact ⟨fun byte member => (hidden byte member).1,
        .inl ⟨rfl, fun byte member => (hidden byte member).2⟩⟩
  | @token pattern _ _ _ _ longest means =>
      have pattern' : pattern ≠ .text := by
        rintro rfl
        cases means with
        | text => exact noText _ rfl rfl
      have plain := matches_plain longest.matched pattern'
      exact ⟨fun byte member => (plain byte member).1,
        .inr fun byte member => (plain byte member).2⟩

/-- A round without an error is the same behind other bytes and before less of the rest. -/
theorem Round.moved {back : Bytes} (round : Round before taken (rest ++ back) token none)
    (other : Bytes) : ∃ moved, Round other taken rest moved none ∧
      moved.map Token.unplaced = token.map Token.unplaced := by
  cases round with
  | passed passed =>
      refine ⟨none, .passed ?_, rfl⟩
      cases passed with
      | lineBreak => exact .lineBreak
      | blanks some all whole =>
          refine .blanks some all fun byte member => whole byte ?_
          rw [List.head?_append, Option.mem_def.mp member, Option.some_or]
          rfl
  | token longest means =>
      refine ⟨_, .token ⟨longest.matched, ⟨rest, rfl⟩, ?_⟩ means, rfl⟩
      rintro pattern longer matched ⟨later, split⟩
      refine longest.longest pattern longer matched ⟨later ++ back, ?_⟩
      rw [← List.append_assoc, split, List.append_assoc]

theorem Round.passed_of_hidden {byte : UInt8} {more : Bytes}
    (round : Round before (byte :: more) rest token none) (hidden : ¬IsVisible byte) :
    token = none ∧ Passed (byte :: more) rest := by
  generalize text : byte :: more = taken at round
  cases round with
  | passed passed => exact ⟨rfl, passed⟩
  | token longest _ =>
      obtain ⟨first, later, same, _, visible⟩ := matches_start longest.matched
      rw [same] at text
      exact absurd ((List.cons.inj text).1 ▸ visible) hidden

end Rounds

theorem Passed.later {front back rest : Bytes} (passed : Passed (front ++ back) rest)
    (inFront : front ≠ []) (behind : back ≠ []) : Passed back rest := by
  generalize text : front ++ back = run at passed
  cases passed with
  | lineBreak =>
      rcases List.append_eq_singleton_iff.mp text with ⟨noFront, _⟩ | ⟨_, noBack⟩
      · exact absurd noFront inFront
      · exact absurd noBack behind
  | blanks _ all whole =>
      subst text
      exact .blanks behind (fun byte member => all byte (List.mem_append_right _ member)) whole

section Reads

variable {before source : Bytes} {tokens : List Token} {errors : List LexError}

/-- Where a round and the rest of a reading give no error, neither does. -/
theorem clean_parts {error : Option LexError} (clean : error.toList ++ errors = []) :
    error = none ∧ errors = [] := by
  obtain ⟨noError, cleanLater⟩ := List.append_eq_nil_iff.mp clean
  exact ⟨Option.toList_eq_nil_iff.mp noError, cleanLater⟩

theorem Round.moved_before {taken rest back other : Bytes} {token : Option Token}
    {moved : List Token} (first : Round before taken (rest ++ back) token none)
    (later : Reads (other ++ taken) rest moved [])
    (same : moved.map Token.unplaced = tokens.map Token.unplaced) :
    ∃ all, Reads other (taken ++ rest) all [] ∧
      all.map Token.unplaced = (token.toList ++ tokens).map Token.unplaced := by
  obtain ⟨token', first', sameFirst⟩ := first.moved other
  refine ⟨_, .round first' later, ?_⟩
  rw [List.map_append, List.map_append, same, ← Option.toList_map, ← Option.toList_map, sameFirst]

theorem Reads.moved (reads : Reads before source tokens errors) (clean : errors = [])
    (other : Bytes) : ∃ moved, Reads other source moved [] ∧
      moved.map Token.unplaced = tokens.map Token.unplaced := by
  induction reads generalizing other with
  | done => exact ⟨_, .done, rfl⟩
  | @round before taken rest token error tokens errors first later laterMoved =>
      obtain ⟨rfl, clean⟩ := clean_parts clean
      rw [← List.append_nil rest] at first
      obtain ⟨moved, later, same⟩ := laterMoved clean (other ++ taken)
      exact first.moved_before later same

/-- White space in front of a source gives no token. -/
theorem Reads.without_front (reads : Reads before source tokens errors) (clean : errors = [])
    {front core : Bytes} (split : source = front ++ core)
    (hidden : ∀ byte ∈ front, ¬IsVisible byte) (other : Bytes) :
    ∃ moved, Reads other core moved [] ∧
      moved.map Token.unplaced = tokens.map Token.unplaced := by
  induction reads generalizing front with
  | done =>
      obtain ⟨_, rfl⟩ := List.append_eq_nil_iff.mp split.symm
      exact ⟨_, .done, rfl⟩
  | @round before taken rest token error tokens errors first later laterMoved =>
      cases front with
      | nil =>
          rw [List.nil_append] at split
          rw [← split]
          exact (Reads.round first later).moved clean other
      | cons byte more =>
          obtain ⟨rfl, clean⟩ := clean_parts clean
          obtain ⟨byte', others, rfl⟩ := List.exists_cons_of_ne_nil first.taken_ne_nil
          obtain rfl : byte' = byte := (List.cons.inj split).1
          obtain ⟨rfl, passed⟩ := first.passed_of_hidden (hidden byte' (by simp))
          -- The white space ends in the front or behind it.
          rcases List.append_eq_append_iff.mp split with ⟨left, inFront, behind⟩ | ⟨left, run, behind⟩
          · refine laterMoved clean behind fun other member => hidden other ?_
            rw [inFront]
            exact List.mem_append_right _ member
          · obtain ⟨moved, reads, same⟩ := later.moved clean (other ++ left)
            by_cases empty : left = []
            · rw [empty, List.append_nil] at reads
              rw [behind, empty]
              exact ⟨moved, reads, same⟩
            · rw [run] at passed
              rw [behind]
              exact ⟨_, .round (.passed (passed.later (List.cons_ne_nil _ _) empty)) reads, same⟩

theorem Reads.without_back (reads : Reads before source tokens errors) (clean : errors = [])
    (noText : ∀ token ∈ tokens, token.kind ≠ .string) {core back : Bytes}
    (split : source = core ++ back) (hidden : ∀ byte ∈ back, ¬IsVisible byte)
    (ends : ∀ byte ∈ core.getLast?, IsVisible byte) (other : Bytes) :
    ∃ moved, Reads other core moved [] ∧
      moved.map Token.unplaced = tokens.map Token.unplaced := by
  induction reads generalizing core back other with
  | done =>
      obtain ⟨rfl, _⟩ := List.append_eq_nil_iff.mp split.symm
      exact ⟨_, .done, rfl⟩
  | @round before taken rest token error tokens errors first later laterMoved =>
      obtain ⟨rfl, clean⟩ := clean_parts clean
      have noTextLater : ∀ token ∈ tokens, token.kind ≠ .string := fun found member =>
        noText found (List.mem_append_right _ member)
      have reach : (∃ left, core = taken ++ left ∧ rest = left ++ back) ∨
          ∃ left, left ≠ [] ∧ taken = core ++ left ∧ back = left ++ rest := by
        rcases List.append_eq_append_iff.mp split with ⟨left, whole, behind⟩ | ⟨left, whole, behind⟩
        · exact .inl ⟨left, whole, behind⟩
        · by_cases empty : left = []
          · refine .inl ⟨[], ?_, ?_⟩
            · rw [whole, empty, List.append_nil, List.append_nil]
            · rw [behind, empty]
              rfl
          · exact .inr ⟨left, empty, whole, behind⟩
      rcases reach with ⟨left, rfl, rfl⟩ | ⟨left, some, whole, rfl⟩
      · obtain ⟨moved, later, same⟩ := laterMoved clean noTextLater rfl hidden
          (fun byte member => ends byte (by rw [List.getLast?_append, member]; rfl))
          (other ++ taken)
        exact first.moved_before later same
      · -- The round takes a byte of the white space, so it takes nothing else.
        obtain ⟨byte, more, rfl⟩ := List.exists_cons_of_ne_nil some
        have inTaken : byte ∈ taken := by simp [whole]
        have unseen : ¬IsVisible byte := hidden byte (by simp)
        obtain ⟨_, ⟨rfl, allHidden⟩ | allVisible⟩ := first.plain fun found member =>
          noText found (List.mem_append_left _ (Option.mem_toList.mpr member))
        · cases last : core.getLast? with
          | none =>
              obtain rfl := List.getLast?_eq_none_iff.mp last
              exact laterMoved clean noTextLater rfl
                (fun byte member => hidden byte (List.mem_append_right _ member)) ends other
          | some final =>
              have inCore := List.mem_of_mem_getLast? (Option.mem_def.mpr last)
              have inTaken : final ∈ taken := by simp [whole, inCore]
              exact absurd (ends final last) (allHidden final inTaken)
        · exact absurd (allVisible byte inTaken) unseen

theorem Reads.plain (reads : Reads before source tokens errors) (clean : errors = [])
    (noText : ∀ token ∈ tokens, token.kind ≠ .string) : ∀ byte ∈ source, IsPlain byte := by
  induction reads with
  | done => exact fun _ member => nomatch member
  | round first later laterPlain =>
      obtain ⟨rfl, clean⟩ := clean_parts clean
      have here := first.plain fun found member =>
        noText found (List.mem_append_left _ (Option.mem_toList.mpr member))
      intro byte member
      rcases List.mem_append.mp member with inTaken | inRest
      · exact here.1 byte inTaken
      · exact laterPlain clean (fun found member => noText found (List.mem_append_right _ member))
          byte inRest

end Reads

end Lexicon

section Sources

open Lexicon

variable {source : Bytes}

theorem source_plain (clean : (lex source).errors = [])
    (noText : ∀ token ∈ (lex source).tokens, token.kind ≠ .string) :
    ∀ byte ∈ source, IsPlain byte :=
  (reads_lex source).plain clean noText

/-- Trimming such a source only moves its tokens. -/
theorem lex_trim (clean : (lex source).errors = [])
    (noText : ∀ token ∈ (lex source).tokens, token.kind ≠ .string) :
    (lex (Text.trim source)).errors = [] ∧
      (lex (Text.trim source)).tokens.map Token.unplaced =
        (lex source).tokens.map Token.unplaced := by
  have plain := source_plain clean noText
  obtain ⟨front, back, split, tight, inFront, behind⟩ :=
    Text.trim_splits fun byte member => (plain byte member).1
  generalize Text.trim source = core at split tight ⊢
  have inSource {byte : UInt8} (member : byte ∈ front ∨ byte ∈ core ∨ byte ∈ back) :
      IsPlain byte := plain byte (by rw [split]; simpa [or_assoc] using member)
  obtain ⟨moved, reads, same⟩ := (reads_lex source).without_front clean
    (split.trans (List.append_assoc _ _ _))
    (fun byte member => (inSource (.inl member)).2.mp (inFront byte member)) []
  have noTextMoved : ∀ token ∈ moved, token.kind ≠ .string := by
    intro token member
    have placed := List.mem_map_of_mem (f := Token.unplaced) member
    rw [same] at placed
    obtain ⟨original, inTokens, shape⟩ := List.mem_map.mp placed
    have kind : original.unplaced.kind = token.unplaced.kind := congrArg Token.kind shape
    change original.kind = token.kind at kind
    rw [← kind]
    exact noText original inTokens
  obtain ⟨final, reads, same'⟩ := reads.without_back rfl noTextMoved rfl
    (fun byte member => (inSource (.inr (.inr member))).2.mp (behind byte member))
    (fun byte member => by
      have visible := tight.ends byte member
      have here := inSource (.inr (.inl (List.mem_of_mem_getLast? member)))
      exact Decidable.of_not_not fun unseen => by simp [here.2.mpr unseen] at visible) []
  obtain ⟨sameTokens, sameErrors⟩ := (reads_lex core).unique reads
  rw [sameTokens, sameErrors]
  exact ⟨rfl, same'.trans same⟩

end Sources

end ExprCompiler
