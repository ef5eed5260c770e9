import ExprCompiler.Session
import ExprCompiler.Proofs.Codegen.Dialogue
import ExprCompiler.Proofs.Text.Numeral

/-!
The input of a program that is run from a session. A word that is written in decimal on a line of
its own is scanned as that word, so the program reads for its variables what the session has stored
under their names.
-/

namespace ExprCompiler

section Words

theorem take_while_digits {base : Nat} {digits : Bytes} (rest : Bytes)
    (all : ∀ byte ∈ digits, isScanDigit base byte = true) :
    (digits ++ 10 :: rest).takeWhile (isScanDigit base) = digits ∧
      (digits ++ 10 :: rest).dropWhile (isScanDigit base) = 10 :: rest := by
  have stops : ¬isScanDigit base 10 = true := by
    have noDigit : Text.digitValue? 10 = none := by decide
    simp [isScanDigit, noDigit, Text.underscore]
  rw [List.takeWhile_append_of_pos all, List.dropWhile_append_of_pos all,
    List.takeWhile_cons_of_neg stops, List.dropWhile_cons_of_neg stops, List.append_nil]
  exact ⟨rfl, rfl⟩

theorem take_digits_decimal (sign : Bytes) (value : Nat) (rest : Bytes) :
    takeDigits ⟨sign, Text.decimalNat value ++ 10 :: rest⟩ =
      (.ok (), ⟨sign ++ Text.decimalNat value, 10 :: rest⟩) := by
  obtain ⟨first, more, digits, onlyZero⟩ := Text.decimal_nat_starts value
  have inTen : ∀ byte ∈ Text.decimalNat value, isScanDigit 10 byte = true := by
    intro byte member
    obtain ⟨low, high⟩ := Text.decimal_nat_digits value byte member
    have digit : Text.digitValue? byte = some (byte.toNat - 48) := by
      rw [Text.digitValue?, if_pos (by simp [low, high])]
    simp only [isScanDigit, digit, Option.any_some, Bool.or_eq_true, decide_eq_true_eq]
    omega
  by_cases isZero : first = 0x30
  · obtain ⟨rfl, rfl⟩ := onlyZero isZero
    have unmarked : markedBase? 10 = none := by decide
    obtain ⟨taken, left⟩ := @take_while_digits 8 [] rest (by simp)
    rw [List.nil_append] at taken left
    rw [digits, isZero]
    simp only [takeDigits, List.cons_append, List.nil_append, unmarked, Taken.many, taken, left,
      List.append_nil]
  · obtain ⟨taken, left⟩ := take_while_digits rest inTen
    rw [digits] at taken left inTen ⊢
    rw [List.cons_append] at taken left ⊢
    unfold takeDigits
    dsimp only
    split
    · rename_i same
      cases same
    · rename_i same
      exact absurd (List.cons.inj same).1 isZero
    · rename_i byte _ same
      obtain ⟨rfl, _⟩ := List.cons.inj same
      rw [if_pos (inTen first (by simp)), Taken.many, taken, left]

theorem read_word_text (word : Word) : readWord word.text = .ok word := by
  have low := word.le_toInt
  have high := word.toInt_lt
  have bound : Nat.pow 2 (64 - 1) = 9223372036854775808 := by decide
  have read : Text.readInteger 64 word.text = .ok word.toInt :=
    Text.read_integer_decimal (by decide) bound (by omega) (by omega)
  rw [readWord, read]
  dsimp only
  rw [if_neg (by simp; omega), BitVec.ofInt_toInt]

theorem skip_blanks_visible {first : UInt8} {rest : Bytes} (small : first.toNat < 0x80)
    (visible : Text.isBlankByte first = false) : skipBlanks (first :: rest) = first :: rest := by
  have noBlank : (Text.firstGlyph first rest).isBlank = false := by
    rw [Text.first_glyph_ascii rest small]
    exact visible
  unfold skipBlanks
  simp only [noBlank]
  exact if_neg Bool.false_ne_true

theorem skip_blanks_line (input : Bytes) : skipBlanks (10 :: input) = skipBlanks input := by
  have line : Text.firstGlyph 10 input = Text.asciiGlyph 10 :=
    Text.first_glyph_ascii input (by decide)
  have blank : (Text.asciiGlyph 10).isBlank = true := by decide
  conv => lhs; unfold skipBlanks
  simp only [line, blank]
  exact if_pos trivial

theorem scan_word_digits {input rest : Bytes} {value : Nat} (sign : Bytes)
    (start : skipBlanks input = input) (some : input ≠ [])
    (signed : (⟨[], input⟩ : Taken).one isScanSign = ⟨sign, Text.decimalNat value ++ 10 :: rest⟩) :
    scanWord input = (readWord (sign ++ Text.decimalNat value), 10 :: rest) := by
  rw [scanWord, start, if_neg some, signed, take_digits_decimal]

theorem scan_word_text (word : Word) (rest : Bytes) :
    scanWord (word.text ++ 10 :: rest) = (.ok word, 10 :: rest) := by
  rw [← read_word_text word, Word.text]
  cases word.toInt with
  | ofNat value =>
      obtain ⟨first, more, digits, _⟩ := Text.decimal_nat_starts value
      have digit := Text.decimal_nat_digits value first (by simp [digits])
      have noSign : isScanSign first = false := by
        rw [isScanSign, Bool.or_eq_false_iff, beq_eq_false_iff_ne, beq_eq_false_iff_ne]
        refine ⟨?_, ?_⟩ <;> rintro rfl <;> simp at digit
      have visible : Text.isBlankByte first = false := by
        rw [Text.isBlankByte, Text.isBlank]
        simp
        omega
      refine scan_word_digits [] ?_ ?_ ?_
      · rw [Text.decimal, digits]
        exact skip_blanks_visible (by omega) visible
      · simp
      · rw [Text.decimal, digits, List.cons_append, Taken.one]
        dsimp only
        rw [if_neg (by simp [noSign])]
  | negSucc value =>
      refine scan_word_digits [45] ?_ ?_ ?_
      · exact skip_blanks_visible (by decide) (by decide)
      · simp
      · rfl

end Words

section Sessions

variable {environment : Environment} {cells : Bytes → Word} {names : List Bytes}

theorem scan_words_line (count : Nat) (input : Bytes) :
    scanWords count (10 :: input) = scanWords count input := by
  cases count with
  | zero => rfl
  | succ count => rw [scanWords, scanWords, scanWord, scanWord, skip_blanks_line]

/-- A program reads for its variables what the session has stored under their names. -/
theorem scan_variable_input
    (bound : ∀ name ∈ names, environment.find? name = some (.int (cells name))) :
    ∃ input, variableInput environment names = .ok input ∧
      scanWords names.length input = ⟨names.map cells, none⟩ := by
  induction names with
  | nil => exact ⟨[], rfl, rfl⟩
  | cons name names induction =>
      obtain ⟨here, later⟩ := List.forall_mem_cons.mp bound
      obtain ⟨input, written, scanned⟩ := induction later
      refine ⟨(cells name).text ++ 10 :: input, ?_, ?_⟩
      · rw [variableInput, here, written]
        rfl
      · rw [List.length_cons, scan_words_more _ (scan_word_text (cells name) input),
          scan_words_line, scanned, List.map_cons]

end Sessions

end ExprCompiler
