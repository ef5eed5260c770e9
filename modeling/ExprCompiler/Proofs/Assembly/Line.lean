import ExprCompiler.Assembly.Buffer
import ExprCompiler.Proofs.Assembly.Instruction
import ExprCompiler.Proofs.Assembly.Operand

/-!
Lines of a listing are read back as they were written: instructions with readable operands in the
code section, and labelled data in the other two.
-/

namespace ExprCompiler

open ListingReader

def instructionsFrom (number : Nat) : List Line → List Instruction
  | [] => []
  | .instruction mnemonic operands :: rest =>
      ⟨number, mnemonic, operands⟩ :: instructionsFrom (number + 1) rest
  | _ :: rest => instructionsFrom (number + 1) rest

/-- Bytes that neither open a quote nor start a comment. -/
def isUnquoted (byte : UInt8) : Bool := !isQuoteMark byte && byte != 0x3b

theorem ordinary_unquoted {byte : UInt8} (ordinary : isOrdinary byte = true) :
    isUnquoted byte = true := by
  simp only [isOrdinary, isUnquoted, Bool.and_eq_true] at ordinary ⊢
  exact ⟨ordinary.1.1.1.1.1.2, ordinary.2⟩

theorem without_comment_unquoted {text : Bytes}
    (unquoted : ∀ byte ∈ text, isUnquoted byte = true) (rest : Bytes) :
    withoutComment none (text ++ rest) = text ++ withoutComment none rest := by
  induction text with
  | nil => rfl
  | cons byte text induction =>
      have here := unquoted byte (by simp)
      simp only [isUnquoted, Bool.and_eq_true, Bool.not_eq_true', bne_iff_ne] at here
      have later := induction fun other member => unquoted other (by simp [member])
      simp [withoutComment, here.1, here.2, later]

theorem without_comment_inside {text : Bytes} (closed : ∀ byte ∈ text, byte ≠ 0x22)
    (rest : Bytes) :
    withoutComment (some 0x22) (text ++ 0x22 :: rest) =
      text ++ 0x22 :: withoutComment none rest := by
  induction text with
  | nil => simp [withoutComment]
  | cons byte text induction =>
      have here := closed byte (by simp)
      have later := induction fun other member => closed other (by simp [member])
      simp [withoutComment, here, later]

theorem split_label_none {line : Bytes} (ascii : Text.Ascii line)
    (noColon : ∀ byte ∈ line, byte ≠ 0x3a) : splitLabel? line = none := by
  rw [splitLabel?, Text.glyphs_ascii ascii]
  split
  · rename_i first before colon after taken dropped
    have member : colon ∈ line.map Text.asciiGlyph := by
      apply List.dropWhile_subset
      rw [dropped]
      exact List.mem_cons_self
    obtain ⟨byte, inLine, rfl⟩ := List.mem_map.mp member
    rw [if_neg]
    intro isColon
    exact noColon byte inLine (UInt8.toNat_inj.mp isColon)
  · rfl

theorem label_glyph_of_part {byte : UInt8} (part : Piece.isWordPart byte = true) :
    isLabelGlyph (Text.asciiGlyph byte) = true := by
  rw [isLabelGlyph, Text.asciiGlyph, (word_part_ordinary part).2.2.2]
  rfl

theorem split_label {label rest : Bytes} (parts : ∀ byte ∈ label, Piece.isWordPart byte = true)
    (some : label ≠ []) (ascii : Text.Ascii rest) :
    splitLabel? (label ++ 0x3a :: rest) = .some (label, Text.trim rest) := by
  have solid : Text.Solid label :=
    ⟨fun byte member => ordinary_ascii (word_part_ordinary (parts byte member)).1,
      fun byte member => (word_part_ordinary (parts byte member)).2.1⟩
  have whole : Text.Ascii (label ++ 0x3a :: rest) := by
    simp [solid.ascii, ascii]
  have before : ∀ glyph ∈ label.map Text.asciiGlyph, isLabelGlyph glyph = true := by
    intro glyph member
    obtain ⟨byte, inLabel, rfl⟩ := List.mem_map.mp member
    exact label_glyph_of_part (parts byte inLabel)
  have colon : isLabelGlyph (Text.asciiGlyph 0x3a) = false := by decide
  have taken : ((label ++ 0x3a :: rest).map Text.asciiGlyph).takeWhile isLabelGlyph =
      label.map Text.asciiGlyph := by
    rw [List.map_append, List.takeWhile_append_of_pos before, List.map_cons,
      List.takeWhile_cons_of_neg (by simp [colon]), List.append_nil]
  have dropped : ((label ++ 0x3a :: rest).map Text.asciiGlyph).dropWhile isLabelGlyph =
      Text.asciiGlyph 0x3a :: rest.map Text.asciiGlyph := by
    rw [List.map_append, List.dropWhile_append_of_pos before, List.map_cons,
      List.dropWhile_cons_of_neg (by simp [colon])]
  have isColon : (Text.asciiGlyph 0x3a).code = 0x3a := rfl
  rw [splitLabel?, Text.glyphs_ascii whole]
  simp only [taken, dropped]
  obtain ⟨first, later, rfl⟩ := List.exists_cons_of_ne_nil some
  rw [List.map_cons]
  simp only [isColon, if_true]
  rw [← List.map_cons, Text.glyph_bytes_ascii, Text.glyph_bytes_ascii, solid.tight.trim]

section Lines

variable {reader : ListingReader} {number : Nat} {raw line head rest : Bytes}

theorem read_line_labelled {label after : Bytes}
    (content : Text.trim (withoutComment none raw) = line) (some : line ≠ [])
    (split : Text.splitHead line = (head, rest))
    (noWord : LineWord.ofText? (Text.lowerCase head) = none)
    (labelled : splitLabel? line = .some (label, after)) :
    reader.readLine number raw = reader.addLabelled number label after := by
  rw [readLine]
  simp only [content, split, if_neg some, noWord, labelled]

theorem read_line_unlabelled (content : Text.trim (withoutComment none raw) = line)
    (some : line ≠ []) (split : Text.splitHead line = (head, rest))
    (noWord : LineWord.ofText? (Text.lowerCase head) = none)
    (unlabelled : splitLabel? line = none) (inCode : reader.place = .code) :
    reader.readLine number raw = reader.addInstruction number line := by
  rw [readLine]
  simp only [content, split, if_neg some, noWord, unlabelled, if_pos inCode]

end Lines

/-- What the texts of the known mnemonics have in common. -/
theorem known_mnemonic {mnemonic : Mnemonic} (known : mnemonic ∈ Mnemonic.known) :
    Text.Solid mnemonic.text ∧ mnemonic.text ≠ [] ∧
      (∀ byte ∈ mnemonic.text, isOrdinary byte = true) ∧
      Text.lowerCase mnemonic.text = mnemonic.text ∧ Mnemonic.ofText mnemonic.text = mnemonic ∧
      LineWord.ofText? mnemonic.text = none := by
  have solid : Text.Solid mnemonic.text := by
    simp only [Mnemonic.known, List.mem_cons, List.not_mem_nil, or_false] at known
    rcases known with rfl | rfl | rfl | rfl | rfl | rfl | rfl | rfl | rfl | rfl | rfl | rfl <;>
      exact Text.solid_of_all rfl
  have lower : Text.lowerCase mnemonic.text = mnemonic.text := by
    apply Text.lower_case_same solid.ascii
    simp only [Mnemonic.known, List.mem_cons, List.not_mem_nil, or_false] at known
    rcases known with rfl | rfl | rfl | rfl | rfl | rfl | rfl | rfl | rfl | rfl | rfl | rfl <;>
      decide
  rw [lower]
  refine ⟨solid, ?_⟩
  simp only [Mnemonic.known, List.mem_cons, List.not_mem_nil, or_false] at known
  rcases known with rfl | rfl | rfl | rfl | rfl | rfl | rfl | rfl | rfl | rfl | rfl | rfl <;>
    decide

section Pieces

variable {texts : List Bytes}

theorem joined_tight (uncut : ∀ text ∈ texts, Uncut text) (some : texts ≠ []) :
    Text.Tight (Text.join (utf8 ", ") texts) ∧ Text.join (utf8 ", ") texts ≠ [] := by
  induction texts with
  | nil => contradiction
  | cons text texts induction =>
      have here := uncut text (by simp)
      cases texts with
      | nil => exact ⟨here.tight, here.some⟩
      | cons next later =>
          obtain ⟨tight, nonempty⟩ :=
            induction (fun other member => uncut other (by simp [member])) (by simp)
          rw [Text.join_cons_cons]
          have separator : Text.Ascii (utf8 ", ") := by decide
          refine ⟨here.tight.around tight here.some nonempty separator, ?_⟩
          simp [here.some]

end Pieces

section Instructions

variable {operands : List Operand}

theorem operand_texts_uncut (readable : ∀ operand ∈ operands, operand.Readable) :
    ∀ text ∈ operands.map Operand.text, Uncut text := by
  intro text member
  obtain ⟨operand, inOperands, rfl⟩ := List.mem_map.mp member
  exact (readable operand inOperands).uncut

theorem joined_calm (readable : ∀ operand ∈ operands, operand.Readable) :
    ∀ byte ∈ Text.join (utf8 ", ") (operands.map Operand.text),
      isUnquoted byte = true ∧ byte ≠ 0x3a ∧ Text.isPlainByte byte = true := by
  have calm {operand : Operand} (one : operand.Readable) {byte : UInt8}
      (member : byte ∈ operand.text) : isUnquoted byte = true ∧ byte ≠ 0x3a ∧ Text.isPlainByte byte = true := by
    rcases one.calm byte member with ordinary | rfl | rfl
    · refine ⟨ordinary_unquoted ordinary, ?_, ordinary_plain ordinary⟩
      rintro rfl
      cases ordinary
    · decide
    · decide
  induction operands with
  | nil => simp [Text.join]
  | cons operand operands induction =>
      have here := readable operand (by simp)
      have later := induction fun other member => readable other (by simp [member])
      cases operands with
      | nil => exact fun byte member => calm here member
      | cons next others =>
          intro byte member
          rw [List.map_cons, List.map_cons, Text.join_cons_cons, List.mem_append,
            List.mem_append] at member
          rcases member with (inOperand | inSeparator) | inOthers
          · exact calm here inOperand
          · have separator : ∀ byte ∈ utf8 ", ",
              isUnquoted byte = true ∧ byte ≠ 0x3a ∧ Text.isPlainByte byte = true := by decide
            exact separator byte inSeparator
          · exact later byte inOthers

variable {mnemonic : Mnemonic}

theorem instruction_text_tight (known : mnemonic ∈ Mnemonic.known)
    (readable : ∀ operand ∈ operands, operand.Readable) :
    Text.Tight (instructionText mnemonic operands) ∧ instructionText mnemonic operands ≠ [] := by
  obtain ⟨solid, nonempty, _⟩ := known_mnemonic known
  by_cases some : operands = []
  · rw [some, instructionText, List.isEmpty_nil, if_pos rfl]
    exact ⟨solid.tight, nonempty⟩
  · have tight := joined_tight (operand_texts_uncut readable) (by simpa using some)
    rw [instructionText, if_neg (by simpa using some)]
    refine ⟨solid.tight.around tight.1 nonempty tight.2 (by decide), ?_⟩
    simp [nonempty]

theorem instruction_text_calm (known : mnemonic ∈ Mnemonic.known)
    (readable : ∀ operand ∈ operands, operand.Readable) :
    ∀ byte ∈ instructionText mnemonic operands,
      isUnquoted byte = true ∧ byte ≠ 0x3a ∧ Text.isPlainByte byte = true := by
  have word : ∀ byte ∈ mnemonic.text, isUnquoted byte = true ∧ byte ≠ 0x3a ∧ Text.isPlainByte byte = true := by
    intro byte member
    have ordinary := (known_mnemonic known).2.2.1 byte member
    refine ⟨ordinary_unquoted ordinary, ?_, ordinary_plain ordinary⟩
    rintro rfl
    cases ordinary
  have space : ∀ byte ∈ utf8 " ", isUnquoted byte = true ∧ byte ≠ 0x3a ∧ Text.isPlainByte byte = true := by decide
  intro byte member
  rw [instructionText] at member
  split at member
  · exact word byte member
  · rw [List.mem_append, List.mem_append] at member
    rcases member with (inWord | inSpace) | inOperands
    · exact word byte inWord
    · exact space byte inSpace
    · exact joined_calm readable byte inOperands

theorem valid_of_known (number : Nat) (known : mnemonic ∈ Mnemonic.known)
    (readable : ∀ operand ∈ operands, operand.Readable) :
    Instruction.Valid ⟨number, mnemonic, operands⟩ := by
  obtain ⟨solid, nonempty, _, lower, own, _⟩ := known_mnemonic known
  exact ⟨solid.unbroken, lower, own,
    fun operand member => valid_of_read (readable operand member).read,
    fun empty => absurd empty nonempty⟩

def ListingReader.extend (reader : ListingReader) (instruction : Instruction) : ListingReader :=
  { reader with
    program :=
      { reader.program with instructions := reader.program.instructions.push instruction } }

theorem read_instruction_row {reader : ListingReader} (number : Nat)
    (inCode : reader.place = .code) (known : mnemonic ∈ Mnemonic.known)
    (readable : ∀ operand ∈ operands, operand.Readable) :
    reader.readLine number (utf8 "  " ++ instructionText mnemonic operands) =
      .ok (reader.extend ⟨number, mnemonic, operands⟩) := by
  have calm := instruction_text_calm known readable
  obtain ⟨tight, nonempty⟩ := instruction_text_tight known readable
  have indent : ∀ byte ∈ utf8 "  ", byte.toNat < 0x80 ∧ Text.isBlankByte byte = true := by decide
  have content : Text.trim (withoutComment none (utf8 "  " ++ instructionText mnemonic operands)) =
      instructionText mnemonic operands := by
    have kept := without_comment_unquoted (fun byte member => (calm byte member).1) []
    rw [List.append_nil] at kept
    rw [without_comment_unquoted (by decide), kept, withoutComment, List.append_nil,
      tight.trim_indented indent]
  obtain ⟨_, _, _, lower, _, noWord⟩ := known_mnemonic known
  have valid := valid_of_known number known readable
  have read := valid.read_printed number
  rw [Instruction.text] at read
  rw [read_line_unlabelled content nonempty valid.split_text (by rw [lower, noWord])
    (split_label_none tight.ascii fun byte member => (calm byte member).2.1) inCode]
  simp only [addInstruction, read]
  rfl

end Instructions

end ExprCompiler
