import ExprCompiler.Charset.Basic
import ExprCompiler.Proofs.Assembly.Line

/-!
What is relied on in registered character sets. Listings are plain texts, and a set decodes what it
encoded for one. Most sets write such a text as it stands. The others are the forms of UTF-16, with
a zero next to every letter or a mark in front, and the EBCDIC sets, where the letters of ASCII have
codes that no character of UTF-8 starts with; what these write cannot be taken for a listing.
-/

namespace ExprCompiler

open ListingReader

/-- A zero, or a byte that no character of UTF-8 starts with. -/
def isForeignByte (byte : UInt8) : Bool :=
  byte == 0 || (0x80 ≤ byte.toNat && byte.toNat < 0xc2) || 0xf5 ≤ byte.toNat

/-- Behind letters, if any, the bytes go on with one that is foreign to ASCII texts. -/
def IsForeign (bytes : Bytes) : Prop :=
  ∃ front lead later, bytes = front ++ lead :: later ∧
    (∀ byte ∈ front, Text.isAsciiLetter byte.toNat = true) ∧ isForeignByte lead = true

theorem IsForeign.append {bytes : Bytes} (foreign : IsForeign bytes) (rest : Bytes) :
    IsForeign (bytes ++ rest) := by
  obtain ⟨front, lead, later, rfl, letters, isLead⟩ := foreign
  exact ⟨front, lead, later ++ rest, by simp, letters, isLead⟩

namespace Charset

def EncodesAscii (charset : Charset) : Prop :=
  ∀ text, Text.Ascii text → ∃ bytes, charset.encode text = .ok bytes

def KeepsPlain (charset : Charset) : Prop :=
  ∀ text, Text.Plain text → charset.encode text = .ok text

/-- Texts that start with a small letter are written with foreign bytes in front. -/
def WritesForeign (charset : Charset) : Prop :=
  ∀ letter rest bytes, 0x61 ≤ letter.toNat → letter.toNat ≤ 0x7a →
    Text.Plain (letter :: rest) → charset.encode (letter :: rest) = .ok bytes → IsForeign bytes

structure Lawful (charset : Charset) : Prop where
  decode_encode : ∀ {text bytes}, Text.Plain text → charset.encode text = .ok bytes →
    charset.decode bytes = text
  keeps_or_foreign : charset.KeepsPlain ∨ charset.WritesForeign

end Charset

structure CharsetRegistry.Lawful (charsets : CharsetRegistry) : Prop where
  sets : ∀ {name charset}, charsets.resolve name = .ok charset → charset.Lawful
  /-- A set is found by the name that it is registered under. -/
  canonical : ∀ {name charset}, charsets.resolve name = .ok charset →
    charsets.resolve charset.canonical = .ok charset

/-! Foreign bytes at the start of a listing. -/

/-- A byte that stands alone, whatever comes after it, and that can neither be trimmed nor belong to
a word or a label. -/
structure Stray (lead : UInt8) (code : Nat) : Prop where
  alone : ∀ rest, Text.firstGlyph lead rest = ⟨code, [lead]⟩
  visible : Text.isBlank code = false
  noLabel : (isNamePart code || code == 0x20 || code == 9) = false
  noColon : code ≠ 0x3a
  noLetter : ∀ byte ∈ (Text.encodeScalar (Text.lowerCode code)).head?,
    Text.isAsciiLetter byte.toNat = false
  written : Text.encodeScalar (Text.lowerCode code) ≠ []
  unquoted : isUnquoted lead = true
  noBreak : lead ≠ 10

theorem stray_of_foreign {lead : UInt8} (foreign : isForeignByte lead = true) :
    ∃ code, Stray lead code := by
  by_cases zero : lead = 0
  · subst zero
    exact ⟨0, fun _ => rfl, by decide, by decide, by decide, by decide, by decide, by decide,
      by decide⟩
  · have bounds : 0x80 ≤ lead.toNat ∧ lead.toNat < 0xc2 ∨ 0xf5 ≤ lead.toNat := by
      simpa [isForeignByte, zero] using foreign
    have calm := @forall_byte (fun byte => decide (byte.toNat < 0x80) ||
      (isUnquoted byte && byte != 10)) (by decide +kernel) lead
    have upper : ¬lead.toNat < 0x80 := by omega
    simp only [decide_eq_false upper, Bool.false_or, Bool.and_eq_true, bne_iff_ne] at calm
    refine ⟨Text.replacementCode, ?_, by decide, by decide +kernel, by decide, by decide +kernel,
      by decide +kernel, calm.1, calm.2⟩
    intro rest
    have noTwo : (decide (0xc2 ≤ lead.toNat) && decide (lead.toNat ≤ 0xdf)) = false := by
      simp only [Bool.and_eq_false_iff, decide_eq_false_iff_not]
      omega
    have noThree : (decide (0xe0 ≤ lead.toNat) && decide (lead.toNat ≤ 0xef)) = false := by
      simp only [Bool.and_eq_false_iff, decide_eq_false_iff_not]
      omega
    have noFour : (decide (0xf0 ≤ lead.toNat) && decide (lead.toNat ≤ 0xf4)) = false := by
      simp only [Bool.and_eq_false_iff, decide_eq_false_iff_not]
      omega
    simp [Text.firstGlyph, upper, noTwo, noThree, noFour]

theorem letter_visible {byte : UInt8} (letter : Text.isAsciiLetter byte.toNat = true) :
    byte.toNat < 0x80 ∧ Text.isBlankByte byte = false ∧ isUnquoted byte = true ∧ byte ≠ 10 := by
  have checked := @forall_byte (fun byte => !Text.isAsciiLetter byte.toNat ||
    (decide (byte.toNat < 0x80) && !Text.isBlankByte byte && isUnquoted byte && byte != 10))
    (by decide +kernel) byte
  simpa [letter, and_assoc] using checked

theorem letters_solid {text : Bytes}
    (letters : ∀ byte ∈ text, Text.isAsciiLetter byte.toNat = true) : Text.Solid text where
  ascii := fun byte member => (letter_visible (letters byte member)).1
  visible := fun byte member => (letter_visible (letters byte member)).2.1

namespace Stray

variable {lead : UInt8} {code : Nat} {front : Bytes}

theorem glyphs (stray : Stray lead code) (ascii : Text.Ascii front) (rest : Bytes) :
    Text.glyphs (front ++ lead :: rest) =
      front.map Text.asciiGlyph ++ ⟨code, [lead]⟩ :: Text.glyphs rest := by
  rw [Text.glyphs_ascii_append ascii, Text.glyphs, stray.alone]
  simp

theorem glyph_bytes (front rest : List Text.Glyph) :
    Text.glyphBytes (front ++ ⟨code, [lead]⟩ :: rest) =
      Text.glyphBytes front ++ lead :: Text.glyphBytes rest := by
  simp [Text.glyphBytes]

theorem trim (stray : Stray lead code) (solid : Text.Solid front) (rest : Bytes) :
    ∃ later, Text.trim (front ++ lead :: rest) = front ++ lead :: later := by
  have visible : Text.Glyph.isBlank ⟨code, [lead]⟩ = false := stray.visible
  have starts : (front.map Text.asciiGlyph ++ ⟨code, [lead]⟩ :: Text.glyphs rest).dropWhile
      Text.Glyph.isBlank = front.map Text.asciiGlyph ++ ⟨code, [lead]⟩ :: Text.glyphs rest := by
    apply Text.drop_while_of_head
    cases front with
    | nil => simpa using visible
    | cons byte front =>
        intro glyph member
        cases member
        exact solid.visible byte (by simp)
  rw [Text.trim, stray.glyphs solid.ascii, starts, List.reverse_append, List.reverse_cons]
  generalize (Text.glyphs rest).reverse = back
  -- Of what comes behind the byte, blanks at the end are dropped, in the worst case all of it.
  induction back with
  | nil =>
      rw [List.nil_append, List.singleton_append, List.dropWhile_cons_of_neg (by simp [visible]),
        List.reverse_cons, List.reverse_reverse, glyph_bytes, Text.glyph_bytes_ascii]
      exact ⟨[], rfl⟩
  | cons glyph back induction =>
      rw [List.cons_append, List.cons_append, List.dropWhile_cons]
      split
      · exact induction
      · refine ⟨Text.glyphBytes (glyph :: back).reverse, ?_⟩
        rw [← List.cons_append, ← List.cons_append, List.reverse_append, List.reverse_append,
          List.reverse_reverse, List.reverse_singleton, List.singleton_append, glyph_bytes,
          Text.glyph_bytes_ascii]

theorem split_head (stray : Stray lead code) (solid : Text.Solid front) (rest : Bytes) :
    ∃ word after, Text.splitHead (front ++ lead :: rest) = (front ++ lead :: word, after) := by
  have visible : Text.Glyph.isBlank ⟨code, [lead]⟩ = false := stray.visible
  have before : ∀ glyph ∈ front.map Text.asciiGlyph, (!glyph.isBlank) = true := by
    intro glyph member
    obtain ⟨byte, inFront, rfl⟩ := List.mem_map.mp member
    rw [Bool.not_eq_true']
    exact solid.visible byte inFront
  obtain ⟨later, trimmed⟩ := stray.trim solid rest
  rw [Text.splitHead, trimmed, stray.glyphs solid.ascii, List.takeWhile_append_of_pos before,
    List.takeWhile_cons_of_pos (by simp [visible]), glyph_bytes, Text.glyph_bytes_ascii]
  exact ⟨_, _, rfl⟩

/-- The words that lines start with are made of letters. -/
theorem is_no_word (stray : Stray lead code) (ascii : Text.Ascii front) (word : Bytes) :
    LineWord.ofText? (Text.lowerCase (front ++ lead :: word)) = none := by
  obtain ⟨first, others, form⟩ := List.exists_cons_of_ne_nil stray.written
  have noLetter := stray.noLetter first (by simp [form])
  have inText : first ∈ Text.lowerCase (front ++ lead :: word) := by
    rw [Text.lowerCase, stray.glyphs ascii, List.flatMap_append, List.flatMap_cons, form]
    simp
  have letters : ∀ known ∈ [utf8 "section", utf8 "segment", utf8 "global", utf8 "extern"],
      ∀ byte ∈ known, Text.isAsciiLetter byte.toNat = true := by decide
  generalize Text.lowerCase (front ++ lead :: word) = text at inText ⊢
  have differs (known : Bytes)
      (listed : known ∈ [utf8 "section", utf8 "segment", utf8 "global", utf8 "extern"]) :
      text ≠ known := by
    rintro rfl
    rw [letters _ listed first inText] at noLetter
    cases noLetter
  simp only [List.forall_mem_cons] at differs
  obtain ⟨noSection, noSegment, noGlobal, noExtern, _⟩ := differs
  simp [LineWord.ofText?, noSection, noSegment, noGlobal, noExtern]

theorem unlabelled (stray : Stray lead code)
    (letters : ∀ byte ∈ front, Text.isAsciiLetter byte.toNat = true) (rest : Bytes) :
    splitLabel? (front ++ lead :: rest) = none := by
  have ascii := (letters_solid letters).ascii
  have noLabel : isLabelGlyph ⟨code, [lead]⟩ = false := stray.noLabel
  have before : ∀ glyph ∈ front.map Text.asciiGlyph, isLabelGlyph glyph = true := by
    intro glyph member
    obtain ⟨byte, inFront, rfl⟩ := List.mem_map.mp member
    have letter := letters byte inFront
    simp [isLabelGlyph, isNamePart, isNameStart, Text.isLetter, Text.asciiGlyph, ascii byte inFront,
      letter]
  rw [splitLabel?, stray.glyphs ascii, List.takeWhile_append_of_pos before,
    List.dropWhile_append_of_pos before, List.takeWhile_cons_of_neg (by simp [noLabel]),
    List.dropWhile_cons_of_neg (by simp [noLabel])]
  cases front with
  | nil => rfl
  | cons byte front => simp [stray.noColon]

end Stray

theorem lines_start {front : Bytes} (noBreak : ∀ byte ∈ front, byte ≠ 10) (rest : Bytes) :
    ∃ first more, Text.lines (front ++ rest) = (front ++ first) :: more := by
  have grow (piece rest : Bytes) :
      ∃ first more, Text.splitFrom 10 piece rest = (piece.reverse ++ first) :: more := by
    induction rest generalizing piece with
    | nil => exact ⟨[], [], by simp [Text.splitFrom]⟩
    | cons byte rest induction =>
        rw [Text.splitFrom]
        split
        · exact ⟨[], _, by rw [List.append_nil]⟩
        · obtain ⟨first, more, lines⟩ := induction (byte :: piece)
          exact ⟨byte :: first, more, by simp [lines]⟩
  have skip (piece : Bytes) : Text.splitFrom 10 piece (front ++ rest) =
      Text.splitFrom 10 (front.reverse ++ piece) rest := by
    induction front generalizing piece with
    | nil => rfl
    | cons byte front induction =>
        rw [List.cons_append, Text.splitFrom, if_neg (noBreak byte (by simp)),
          induction fun other member => noBreak other (by simp [member])]
        simp
  obtain ⟨first, more, lines⟩ := grow (front.reverse ++ []) rest
  refine ⟨first, more, ?_⟩
  rw [Text.lines, Text.splitOn, skip, lines]
  simp

/-- Foreign bytes are not read as a listing: their first line is of no kind that can stand outside
of all sections. -/
theorem IsForeign.unreadable {bytes : Bytes} (foreign : IsForeign bytes) (program : Program) :
    readListing bytes ≠ .ok program := by
  obtain ⟨front, lead, later, rfl, letters, isLead⟩ := foreign
  obtain ⟨code, stray⟩ := stray_of_foreign isLead
  have solid := letters_solid letters
  have calm := fun byte member => letter_visible (letters byte member)
  have noBreak : ∀ byte ∈ front ++ [lead], byte ≠ 10 := by
    simp only [List.forall_mem_append, List.forall_mem_singleton]
    exact ⟨fun byte member => (calm byte member).2.2.2, stray.noBreak⟩
  have unquoted : ∀ byte ∈ front ++ [lead], isUnquoted byte = true := by
    simp only [List.forall_mem_append, List.forall_mem_singleton]
    exact ⟨fun byte member => (calm byte member).2.2.1, stray.unquoted⟩
  obtain ⟨first, more, lines⟩ := lines_start noBreak later
  have refused : ({} : ListingReader).readLine 1 (front ++ [lead] ++ first) =
      .error (.malformed 1 (.missingLabel .outside)) := by
    have kept := without_comment_unquoted unquoted first
    obtain ⟨rest, trimmed⟩ := stray.trim solid (withoutComment none first)
    obtain ⟨word, after, split⟩ := stray.split_head solid rest
    rw [List.append_cons front] at trimmed
    rw [readLine]
    simp only [kept, trimmed, split, stray.is_no_word solid.ascii, stray.unlabelled letters]
    simp
  rw [List.append_cons, readListing, lines, ListingReader.readLines, refused]
  simp

end ExprCompiler
