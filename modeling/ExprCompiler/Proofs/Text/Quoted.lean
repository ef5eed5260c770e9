import ExprCompiler.Text.Quoted
import ExprCompiler.Proofs.Text.LowerCase
import ExprCompiler.Proofs.Text.Numeral

/-!
Quoted texts are read back. An escape tells by the letter behind its backslash how many digits
follow, and what stands for itself is a character that is neither a backslash nor a quote. So what
was written for a glyph can be told from whatever stands behind it, the closing quote is the first
quote that is not escaped, and two texts are not quoted alike.
-/

namespace ExprCompiler.Text

def hexValue (digits : Bytes) : Nat :=
  digits.foldl (fun value digit => 16 * value + (digitValue? digit).getD 0) 0

theorem digit_value_of_hex_digit {digit : Nat} (small : digit < 16) :
    digitValue? (hexDigit digit) = some digit := by
  have table : ∀ digit < 16, digitValue? (hexDigit digit) = some digit := by decide
  exact table digit small

theorem hex_value_append (digits : Bytes) (last : UInt8) :
    hexValue (digits ++ [last]) = 16 * hexValue digits + (digitValue? last).getD 0 := by
  rw [hexValue, List.foldl_append]
  rfl

theorem hex_fixed_length (width value : Nat) : (hexFixed width value).length = width := by
  induction width generalizing value with
  | zero => rfl
  | succ width induction =>
      rw [hexFixed, List.length_append, induction]
      rfl

theorem hex_value_fixed {width value : Nat} (fits : value < Nat.pow 16 width) :
    hexValue (hexFixed width value) = value := by
  induction width generalizing value with
  | zero =>
      obtain rfl : value = 0 := Nat.lt_one_iff.mp fits
      rfl
  | succ width induction =>
      have shorter : value / 16 < Nat.pow 16 width :=
        Nat.div_lt_of_lt_mul (Nat.mul_comm _ 16 ▸ fits)
      rw [hexFixed, hex_value_append, induction shorter,
        digit_value_of_hex_digit (Nat.mod_lt _ (by decide)), Option.getD_some]
      omega

/-- The control character of a short escape; a letter that is none stands for itself. -/
def controlOf (letter : UInt8) : UInt8 :=
  (((List.range 14).find? fun code => shortEscape? code = some letter).map UInt8.ofNat).getD letter

def readEscape : Bytes → Bytes × Bytes
  | [] => ([], [])
  | mark :: rest =>
      if mark = 0x78 then ([UInt8.ofNat (hexValue (rest.take 2))], rest.drop 2)
      else if mark = 0x75 then (encodeScalar (hexValue (rest.take 4)), rest.drop 4)
      else if mark = 0x55 then (encodeScalar (hexValue (rest.take 8)), rest.drop 8)
      else ([controlOf mark], rest)

def readQuotedGlyph : Bytes → Bytes × Bytes
  | [] => ([], [])
  | byte :: rest =>
      if byte = backslash then readEscape rest
      else ((firstGlyph byte rest).bytes, rest.drop ((firstGlyph byte rest).bytes.length - 1))

theorem encoded_start {char : Char} {lead byte : UInt8} {later : Bytes}
    (encoded : String.utf8EncodeChar char = lead :: later) (ascii : byte.toNat < 0x80)
    (other : char.val.toNat ≠ byte.toNat) : lead ≠ byte := by
  rintro rfl
  have front : lead :: later = String.utf8EncodeChar char ++ [] := by
    rw [List.append_nil, encoded]
  have glyph := first_glyph_encoded front
  rw [first_glyph_ascii _ ascii] at glyph
  exact other (congrArg Glyph.code glyph).symm

section Escapes

variable (rest : Bytes)

theorem read_hex_digits {width value : Nat} (fits : value < Nat.pow 16 width) :
    hexValue ((hexFixed width value ++ rest).take width) = value ∧
      (hexFixed width value ++ rest).drop width = rest := by
  have front := hex_fixed_length width value
  rw [List.take_left' front, List.drop_left' front]
  exact ⟨hex_value_fixed fits, rfl⟩

theorem read_byte_escape (value : Nat) (fits : value < 0x100) :
    readQuotedGlyph (backslash :: 0x78 :: (hexFixed 2 value ++ rest)) =
      ([UInt8.ofNat value], rest) := by
  obtain ⟨digits, behind⟩ := @read_hex_digits rest 2 value fits
  rw [readQuotedGlyph, if_pos rfl, readEscape, if_pos rfl, digits, behind]

theorem read_short_code (code : Nat) (fits : code < 0x10000) :
    readQuotedGlyph (backslash :: 0x75 :: (hexFixed 4 code ++ rest)) =
      (encodeScalar code, rest) := by
  obtain ⟨digits, behind⟩ := @read_hex_digits rest 4 code fits
  rw [readQuotedGlyph, if_pos rfl, readEscape, if_neg (by decide), if_pos rfl, digits, behind]

theorem read_long_code (code : Nat) (fits : code < 0x100000000) :
    readQuotedGlyph (backslash :: 0x55 :: (hexFixed 8 code ++ rest)) =
      (encodeScalar code, rest) := by
  obtain ⟨digits, behind⟩ := @read_hex_digits rest 8 code fits
  rw [readQuotedGlyph, if_pos rfl, readEscape, if_neg (by decide), if_neg (by decide), if_pos rfl,
    digits, behind]

theorem read_letter_escape {letter : UInt8} (other : letter ∉ [(0x78 : UInt8), 0x75, 0x55]) :
    readQuotedGlyph (backslash :: letter :: rest) = ([controlOf letter], rest) := by
  simp only [List.mem_cons, List.not_mem_nil, or_false, not_or] at other
  obtain ⟨noByte, noShort, noLong⟩ := other
  rw [readQuotedGlyph, if_pos rfl, readEscape, if_neg noByte, if_neg noShort, if_neg noLong]

/-- The short escapes are letters that no longer escape starts with. -/
theorem short_escape_read {code : Nat} {letter : UInt8} (short : shortEscape? code = some letter) :
    readQuotedGlyph (backslash :: letter :: rest) = ([UInt8.ofNat code], rest) := by
  have small : code < 14 := by
    unfold shortEscape? at short
    repeat' split at short
    all_goals first | omega | cases short
  have table : ∀ code < 14, ∀ letter ∈ shortEscape? code,
      letter ∉ [(0x78 : UInt8), 0x75, 0x55] ∧ controlOf letter = UInt8.ofNat code := by decide
  obtain ⟨other, control⟩ := table code small letter short
  rw [read_letter_escape rest other, control]

theorem read_plain {char : Char} (noBackslash : char.val.toNat ≠ backslash.toNat) :
    readQuotedGlyph (String.utf8EncodeChar char ++ rest) = (String.utf8EncodeChar char, rest) := by
  obtain ⟨lead, later, encoded⟩ :=
    List.exists_cons_of_ne_nil (@String.utf8EncodeChar_ne_nil char)
  have front : lead :: (later ++ rest) = String.utf8EncodeChar char ++ rest := by
    rw [encoded, List.cons_append]
  have leads := encoded_start encoded (by decide) noBackslash
  rw [← front, readQuotedGlyph, if_neg leads, first_glyph_encoded front, encoded,
    List.length_cons, Nat.add_sub_cancel, List.drop_left]

end Escapes

/-- A glyph as it is read off a text: a character, or a byte that belongs to none. -/
def Glyph.IsRead (glyph : Glyph) : Prop :=
  (∃ char : Char, glyph = ⟨char.val.toNat, String.utf8EncodeChar char⟩) ∨
    ∃ byte : UInt8, glyph = ⟨replacementCode, [byte]⟩

theorem glyphs_read (text : Bytes) : ∀ glyph ∈ glyphs text, glyph.IsRead := by
  fun_induction glyphs text with
  | case1 => simp
  | case2 lead rest induction =>
      intro glyph member
      rcases List.mem_cons.mp member with rfl | later
      · rcases char_of_form (first_glyph_form lead rest) with alone | character
        · exact .inr ⟨lead, alone⟩
        · exact .inl character
      · exact induction glyph later

/-- The replacement character itself takes three bytes, so it is not taken for an invalid byte. -/
theorem character_valid (char : Char) :
    Glyph.isInvalid ⟨char.val.toNat, String.utf8EncodeChar char⟩ = false := by
  rw [Glyph.isInvalid, Bool.and_eq_false_iff]
  by_cases replaces : char.val.toNat = replacementCode
  · right
    rw [← encode_scalar_char, replaces]
    decide
  · exact .inl (beq_eq_false_iff_ne.mpr replaces)

/-- What is written for a glyph is read back as its bytes, whatever stands behind it. -/
theorem read_escaped_glyph {glyph : Glyph} (read : glyph.IsRead) (rest : Bytes) :
    readQuotedGlyph (escapeGlyph doubleQuote glyph ++ rest) = (glyph.bytes, rest) := by
  rcases read with ⟨char, rfl⟩ | ⟨byte, rfl⟩
  · have scalar := encode_scalar_char char
    have valid : char.val.toNat.isValidChar := char.valid
    have plain := @read_plain rest char
    rw [escapeGlyph, if_neg (by rw [character_valid]; decide)]
    dsimp only
    rw [← scalar] at plain ⊢
    generalize char.val.toNat = code at valid plain ⊢
    have ascii (small : code < 0x80) : encodeScalar code = [UInt8.ofNat code] := if_pos small
    unfold escapeCode
    split
    · -- The quote and the backslash keep their byte behind a backslash.
      rename_i special
      simp only [Bool.or_eq_true, decide_eq_true_eq] at special
      rcases special with rfl | rfl
      · exact read_letter_escape rest (by decide)
      · exact read_letter_escape rest (by decide)
    · rename_i ordinary
      split
      · apply plain
        intro isBackslash
        simp [isBackslash] at ordinary
      · split
        · rename_i letter short
          have small : code < 0x80 := by
            unfold shortEscape? at short
            repeat' split at short
            all_goals first | omega | cases short
          rw [ascii small]
          exact short_escape_read rest short
        · split
          · rename_i control
            have small : code < 0x80 := by
              simp only [Bool.or_eq_true, decide_eq_true_eq] at control
              omega
            rw [ascii small]
            exact read_byte_escape rest code (by omega)
          · split
            · rename_i narrow
              exact read_short_code rest code narrow
            · refine read_long_code rest code ?_
              unfold Nat.isValidChar at valid
              omega
  · have invalid : Glyph.isInvalid ⟨replacementCode, [byte]⟩ = true := rfl
    have digits : hexBytes [byte] = hexFixed 2 byte.toNat := List.append_nil _
    rw [escapeGlyph, if_pos invalid, digits]
    have read := read_byte_escape rest byte.toNat byte.toNat_lt
    rwa [UInt8.ofNat_toNat] at read

/-- What stands for itself is neither the quote nor the backslash; all else is written with a
backslash in front. -/
theorem escape_code_cases (quote : UInt8) (code : Nat) (bytes : Bytes) :
    (escapeCode quote code bytes = bytes ∧ code ≠ quote.toNat) ∨
      ∃ later, escapeCode quote code bytes = backslash :: later := by
  unfold escapeCode
  split
  · exact .inr ⟨_, rfl⟩
  · rename_i ordinary
    split
    · refine .inl ⟨rfl, ?_⟩
      intro isQuote
      simp [isQuote] at ordinary
    · split
      · exact .inr ⟨_, rfl⟩
      · repeat' split
        all_goals exact .inr ⟨_, rfl⟩

theorem escaped_glyph_start {glyph : Glyph} (read : glyph.IsRead) :
    ∃ first later, escapeGlyph doubleQuote glyph = first :: later ∧ first ≠ doubleQuote := by
  rcases read with ⟨char, rfl⟩ | ⟨byte, rfl⟩
  · rw [escapeGlyph, if_neg (by rw [character_valid]; decide)]
    rcases escape_code_cases doubleQuote char.val.toNat (String.utf8EncodeChar char) with
      ⟨itself, noQuote⟩ | ⟨later, escaped⟩
    · obtain ⟨lead, later, encoded⟩ :=
        List.exists_cons_of_ne_nil (@String.utf8EncodeChar_ne_nil char)
      exact ⟨lead, later, itself.trans encoded, encoded_start encoded (by decide) noQuote⟩
    · exact ⟨backslash, later, escaped, by decide⟩
  · have invalid : Glyph.isInvalid ⟨replacementCode, [byte]⟩ = true := rfl
    rw [escapeGlyph, if_pos invalid]
    exact ⟨backslash, _, rfl, by decide⟩

theorem escaped_apart {written others : List Glyph} {rest otherRest : Bytes}
    (read : ∀ glyph ∈ written, glyph.IsRead) (read' : ∀ glyph ∈ others, glyph.IsRead)
    (same : written.flatMap (escapeGlyph doubleQuote) ++ doubleQuote :: rest =
      others.flatMap (escapeGlyph doubleQuote) ++ doubleQuote :: otherRest) :
    glyphBytes written = glyphBytes others ∧ rest = otherRest := by
  -- A list that ends earlier would have its closing quote where the other one has a glyph.
  induction written generalizing others with
  | nil =>
      cases others with
      | nil => exact ⟨rfl, (List.cons.inj same).2⟩
      | cons other others =>
          obtain ⟨first, later, start, noQuote⟩ := escaped_glyph_start (read' other (by simp))
          rw [List.flatMap_cons, start] at same
          exact absurd (List.cons.inj same).1.symm noQuote
  | cons glyph written induction =>
      have here := read glyph (by simp)
      cases others with
      | nil =>
          obtain ⟨first, later, start, noQuote⟩ := escaped_glyph_start here
          rw [List.flatMap_cons, start] at same
          exact absurd (List.cons.inj same).1 noQuote
      | cons other others =>
          rw [List.flatMap_cons, List.flatMap_cons, List.append_assoc, List.append_assoc] at same
          have reading := congrArg readQuotedGlyph same
          rw [read_escaped_glyph here, read_escaped_glyph (read' other (by simp))] at reading
          obtain ⟨bytes, behind⟩ := Prod.mk.inj reading
          obtain ⟨later, rests⟩ := induction (fun next member => read next (by simp [member]))
            (fun next member => read' next (by simp [member])) behind
          refine ⟨?_, rests⟩
          rw [glyphBytes, glyphBytes, List.flatMap_cons, List.flatMap_cons, bytes,
            ← glyphBytes, ← glyphBytes, later]

/-- A quoted text ends at its closing quote, whatever stands behind it, and no other text is quoted
alike. -/
theorem quoted_apart {text other rest otherRest : Bytes}
    (same : quote text ++ rest = quote other ++ otherRest) : text = other ∧ rest = otherRest := by
  simp only [quote, List.cons_append, List.append_assoc, List.nil_append, List.cons.injEq,
    true_and] at same
  obtain ⟨bytes, rests⟩ := escaped_apart (glyphs_read text) (glyphs_read other) same
  rw [glyph_bytes_glyphs, glyph_bytes_glyphs] at bytes
  exact ⟨bytes, rests⟩

end ExprCompiler.Text
