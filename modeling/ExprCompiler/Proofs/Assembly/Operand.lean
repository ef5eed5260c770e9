import ExprCompiler.Assembly.Listing
import ExprCompiler.Token.Scan
import ExprCompiler.Proofs.Assembly.Printed

/-!
Operands of generated code are read back as they were written. Numbers have to fit a word of 64
bits, and symbols have to be of a shape that is neither a register nor a number; the separators of a
listing then cannot occur in them.
-/

namespace ExprCompiler

theorem word_part_ordinary {byte : UInt8} (part : Piece.isWordPart byte = true) :
    isOrdinary byte = true ∧ Text.isBlankByte byte = false ∧ isSign byte = false ∧
      isNamePart byte.toNat = true := by
  have checked := @forall_byte (fun byte => !Piece.isWordPart byte ||
    (isOrdinary byte && !Text.isBlankByte byte && !isSign byte && isNamePart byte.toNat))
    (by decide +kernel) byte
  simpa [part, and_assoc] using checked

/-- The shape of the labels in generated code: longer than a register name, letters, digits and
underscores, with a letter in front. -/
structure IsSymbol (name : Bytes) : Prop where
  parts : ∀ byte ∈ name, Piece.isWordPart byte = true
  starts : ∀ byte ∈ name.head?, Text.isAsciiLetter byte.toNat = true
  long : 3 < name.length

namespace IsSymbol

variable {name : Bytes}

theorem ne_nil (symbol : IsSymbol name) : name ≠ [] := by
  intro empty
  have long := symbol.long
  simp [empty] at long

theorem ordinary (symbol : IsSymbol name) : ∀ byte ∈ name, isOrdinary byte = true :=
  fun byte member => (word_part_ordinary (symbol.parts byte member)).1

theorem solid (symbol : IsSymbol name) : Text.Solid name where
  ascii := fun byte member => ordinary_ascii (symbol.ordinary byte member)
  visible := fun byte member => (word_part_ordinary (symbol.parts byte member)).2.1

theorem is_name (symbol : IsSymbol name) : isName name = true := by
  rw [isName, Text.glyphs_ascii symbol.solid.ascii]
  obtain ⟨first, rest, rfl⟩ := List.exists_cons_of_ne_nil symbol.ne_nil
  have letter := symbol.starts first (by simp)
  have small := symbol.solid.ascii first (by simp)
  simp only [List.map_cons, Bool.and_eq_true, List.all_map, List.all_eq_true]
  constructor
  · simp [isNameStart, Text.isLetter, Text.asciiGlyph, small, letter]
  · intro byte member
    exact (word_part_ordinary (symbol.parts byte (by simp [member]))).2.2.2

/-- No register has so long a name. -/
theorem read_register (symbol : IsSymbol name) : readRegister? name = none := by
  have long := symbol.long
  rw [readRegister?, Text.lower_case_ascii symbol.solid.ascii, Register.ofText?,
    List.find?_eq_none]
  intro register _ same
  have sameLength := congrArg List.length (beq_iff_eq.mp same)
  rw [List.length_map] at sameLength
  cases register <;> exact absurd sameLength (Nat.ne_of_lt long)

/-- The letter in front is no digit. -/
theorem read_integer (symbol : IsSymbol name) (bits : Nat) :
    Text.readInteger bits name = .error .invalidForm := by
  obtain ⟨first, rest, rfl⟩ := List.exists_cons_of_ne_nil symbol.ne_nil
  have letter := symbol.starts first (by simp)
  have checked := @forall_byte (fun byte => !Text.isAsciiLetter byte.toNat ||
    (byte != 0x2b && byte != 0x2d && byte != 0x30 && byte != Text.underscore &&
      (Text.digitValue? byte).all (10 ≤ ·))) (by decide +kernel) first
  simp only [letter, Bool.not_true, Bool.false_or, Bool.and_eq_true, bne_iff_ne,
    Option.all_eq_true, decide_eq_true_eq] at checked
  obtain ⟨⟨⟨⟨notPlus, notMinus⟩, notZero⟩, notUnderscore⟩, largeDigit⟩ := checked
  have unsigned : Text.splitSign (first :: rest) = (false, first :: rest) := by
    unfold Text.splitSign
    split
    · rename_i same
      exact absurd (List.cons.inj same).1 notPlus
    · rename_i same
      exact absurd (List.cons.inj same).1 notMinus
    · rfl
  have decimal : Text.splitBase (first :: rest) = (10, first :: rest) := by
    unfold Text.splitBase
    split
    · rename_i same
      exact absurd (List.cons.inj same).1 notZero
    · rename_i same
      exact absurd (List.cons.inj same).1 notZero
    · rfl
  have failed (limit : Nat) :
      Text.readDigits 10 limit 0 (first :: rest) = .error .invalidForm := by
    rw [Text.readDigits, if_neg notUnderscore]
    cases digit : Text.digitValue? first with
    | none => rfl
    | some value =>
        have large := largeDigit value digit
        simp [large]
  rw [Text.readInteger, unsigned]
  simp only [Text.readUnsigned, decimal, failed]
  rfl

end IsSymbol

/-- A text that is taken as one piece when a line is cut at commas. -/
structure Uncut (text : Bytes) : Prop where
  tight : Text.Tight text
  some : text ≠ []
  whole : ∀ piece rest, splitPieces none 0 piece (text ++ rest) =
    splitPieces none 0 (text.reverse ++ piece) rest

theorem Uncut.separate {text : Bytes} (uncut : Uncut text) : Separate text :=
  ⟨uncut.tight.framed, uncut.some, uncut.whole⟩

/-- An operand that a listing can hold: what is written for it is one piece of the line, and is
read back as the same operand. -/
structure Operand.Readable (operand : Operand) : Prop where
  uncut : Uncut operand.text
  /-- Nothing in the text ends or structures the line. -/
  calm : ∀ byte ∈ operand.text, isOrdinary byte = true ∨ byte = 0x5b ∨ byte = 0x5d
  read : readOperand operand.text = .ok operand

theorem Operand.Valid.readable {operand : Operand} (valid : operand.Valid)
    (solid : Text.Solid operand.text) (ordinary : ∀ byte ∈ operand.text, isOrdinary byte = true) :
    operand.Readable where
  uncut := ⟨solid.tight, valid.read_printed.1.some, valid.read_printed.1.whole⟩
  calm := fun byte member => .inl (ordinary byte member)
  read := valid.read_printed.2

theorem readable_register (register : Register) : (Operand.register register).Readable := by
  apply (Operand.Valid.register register).readable
  · cases register <;> exact Text.solid_of_all rfl
  · cases register <;> decide

theorem readable_label {name : Bytes} (symbol : IsSymbol name) : (Operand.label name).Readable := by
  refine Operand.Valid.readable (.label symbol.is_name symbol.read_register ?_) symbol.solid
    symbol.ordinary
  intro value number
  rw [symbol.read_integer] at number
  cases number

theorem readable_immediate {value : Int} (above : -9223372036854775808 ≤ value)
    (below : value < 9223372036854775808) :
    (Operand.immediate value).Readable :=
  Operand.Valid.readable (.immediate ⟨above, below⟩) (decimal_solid value)
    fun byte member => (decimal_ordinary value byte member).1

theorem word_operand_text (name : Bytes) :
    (Operand.memory (some .dword) (.label name) 0).text =
      utf8 "dword" ++ 0x20 :: (0x5b :: (name ++ [0x5d])) := by
  rw [memory_text, displacement_text_zero, List.append_nil]
  exact List.append_assoc _ _ _

theorem readable_word {name : Bytes} (symbol : IsSymbol name) :
    (Operand.memory (some .dword) (.label name) 0).Readable := by
  have own : readBase? name = some (.label name) := by
    simp [readBase?, symbol.read_register, symbol.is_name]
  have valid : (Operand.memory (some .dword) (.label name) 0).Valid :=
    .memory _ own ⟨by decide, by decide⟩
  have sizeSolid : Text.Solid (utf8 "dword") := Text.solid_of_all rfl
  have opening : Text.Solid [0x5b] := Text.solid_of_all rfl
  have closing : Text.Solid [0x5d] := Text.solid_of_all rfl
  have bracketed : Text.Solid (0x5b :: (name ++ [0x5d])) :=
    opening.append (symbol.solid.append closing)
  have tight : Text.Tight (utf8 "dword" ++ 0x20 :: (0x5b :: (name ++ [0x5d]))) := by
    have around := sizeSolid.tight.around bracketed.tight (List.cons_ne_nil _ _)
      (List.cons_ne_nil _ _) ((Text.ascii_cons 0x20 []).mpr (by simp))
    rwa [List.append_assoc] at around
  obtain ⟨separate, read⟩ := valid.read_printed
  constructor
  · refine ⟨?_, separate.some, separate.whole⟩
    rw [word_operand_text]
    exact tight
  · rw [word_operand_text]
    have size : ∀ byte ∈ utf8 "dword", isOrdinary byte = true := by decide
    have space : isOrdinary 0x20 = true := by decide
    intro byte member
    simp only [List.mem_append, List.mem_cons, List.not_mem_nil, or_false] at member
    rcases member with inSize | rfl | rfl | inName | rfl
    · exact .inl (size byte inSize)
    · exact .inl space
    · exact .inr (.inl rfl)
    · exact .inl (symbol.ordinary byte inName)
    · exact .inr (.inr rfl)
  · exact read

end ExprCompiler
