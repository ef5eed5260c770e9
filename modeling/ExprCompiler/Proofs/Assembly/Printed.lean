import ExprCompiler.Assembly.OperandText
import ExprCompiler.Proofs.Text.LowerCase
import ExprCompiler.Proofs.Text.Numeral

/-!
Operands as they are printed. Reading gives registers, numbers that fit a word of 64 bits, names of
any letters and digits, and addresses of these. What is printed for such an operand is one piece of
a line, and it is read as the same operand.
-/

namespace ExprCompiler

theorem forall_byte {property : UInt8 → Bool}
    (all : ∀ code < 256, property (UInt8.ofNat code) = true) (byte : UInt8) :
    property byte = true := by
  have here := all byte.toNat byte.toNat_lt
  rwa [UInt8.ofNat_toNat] at here

/-- Plain bytes that do not structure a line: no quotes, brackets, commas, colons and semicolons. -/
def isOrdinary (byte : UInt8) : Bool :=
  Text.isPlainByte byte && !isQuoteMark byte && byte != 0x5b && byte != 0x5d && byte != 0x2c &&
    byte != 0x3a && byte != 0x3b

theorem ordinary_plain {byte : UInt8} (ordinary : isOrdinary byte = true) :
    Text.isPlainByte byte = true := by
  simp only [isOrdinary, Bool.and_eq_true] at ordinary
  exact ordinary.1.1.1.1.1.1

theorem ordinary_ascii {byte : UInt8} (ordinary : isOrdinary byte = true) : byte.toNat < 0x80 :=
  (Text.plain_byte_ascii (ordinary_plain ordinary)).1

/-- Bytes of the whole range that do not show where an operand ends: no quotes, brackets and
commas. -/
def isInert (byte : UInt8) : Bool :=
  !isQuoteMark byte && byte != 0x5b && byte != 0x5d && byte != 0x2c

theorem ordinary_inert {byte : UInt8} (ordinary : isOrdinary byte = true) :
    isInert byte = true := by
  simp only [isOrdinary, Bool.and_eq_true] at ordinary
  simp only [isInert, Bool.and_eq_true]
  obtain ⟨⟨⟨⟨⟨⟨_, noQuote⟩, noOpen⟩, noClose⟩, noComma⟩, _⟩, _⟩ := ordinary
  exact ⟨⟨⟨noQuote, noOpen⟩, noClose⟩, noComma⟩

section Pieces

variable {text : Bytes}

theorem split_pieces_inert (inert : ∀ byte ∈ text, isInert byte = true) (depth : Int)
    (piece rest : Bytes) :
    splitPieces none depth piece (text ++ rest) =
      splitPieces none depth (text.reverse ++ piece) rest := by
  induction text generalizing piece with
  | nil => rfl
  | cons byte text induction =>
      have here := inert byte (by simp)
      simp only [isInert, Bool.and_eq_true, Bool.not_eq_true', bne_iff_ne] at here
      obtain ⟨⟨⟨noQuote, noOpen⟩, noClose⟩, noComma⟩ := here
      have later := induction (fun other member => inert other (by simp [member]))
        (byte :: piece)
      simp [splitPieces, noQuote, noOpen, noClose, noComma, later]

def bracketed (inner : Bytes) : Bytes := 0x5b :: (inner ++ [0x5d])

theorem split_pieces_bracketed (inert : ∀ byte ∈ text, isInert byte = true) (piece rest : Bytes) :
    splitPieces none 0 piece (bracketed text ++ rest) =
      splitPieces none 0 ((bracketed text).reverse ++ piece) rest := by
  have opened (later : Bytes) : splitPieces none 0 piece (0x5b :: later) =
    splitPieces none 1 (0x5b :: piece) later := rfl
  have closed (before later : Bytes) : splitPieces none 1 before (0x5d :: later) =
    splitPieces none 0 (0x5d :: before) later := rfl
  have inside : bracketed text ++ rest = 0x5b :: (text ++ 0x5d :: rest) := by simp [bracketed]
  have reversed : (bracketed text).reverse ++ piece = 0x5d :: (text.reverse ++ 0x5b :: piece) := by
    simp [bracketed]
  rw [inside, opened, split_pieces_inert inert, closed, reversed]

structure Separate (text : Bytes) : Prop where
  framed : Text.Framed text
  some : text ≠ []
  whole : ∀ piece rest, splitPieces none 0 piece (text ++ rest) =
    splitPieces none 0 (text.reverse ++ piece) rest

end Pieces

/-- A word that a displacement can follow. -/
structure Bare (text : Bytes) : Prop where
  unbroken : Text.Unbroken text
  some : text ≠ []
  inert : ∀ byte ∈ text, isInert byte = true
  unsigned : ∀ byte ∈ text, isSign byte = false

section Names

variable {name : Bytes}

theorem blank_no_part {code : Nat} (blank : Text.isBlank code = true) :
    isNamePart code = false := by
  have checked : ∀ range ∈ Text.LowerRun.blankRanges, ∀ offset < range.2 + 1 - range.1,
    isNamePart (range.1 + offset) = false := by decide +kernel
  obtain ⟨range, inRanges, low, high⟩ := Text.blank_in_range blank
  have here := checked range inRanges (code - range.1) (by omega)
  rwa [Nat.add_sub_cancel' low] at here

theorem name_parts (named : isName name = true) :
    ∀ glyph ∈ Text.glyphs name, isNamePart glyph.code = true := by
  intro glyph member
  rw [isName] at named
  split at named
  · cases named
  · rename_i first rest read
    rw [Bool.and_eq_true, List.all_eq_true] at named
    rw [read, List.mem_cons] at member
    rcases member with rfl | later
    · rw [isNamePart, named.1, Bool.true_or]
    · exact named.2 glyph later

/-- Names hold no white space and nothing that structures a line or an address. -/
theorem name_bare (named : isName name = true) : Bare name := by
  have calm {byte : UInt8} (member : byte ∈ name) : isInert byte = true ∧ isSign byte = false := by
    have checked := @forall_byte (fun byte => (if byte.toNat < 0x80 then !isNamePart byte.toNat
      else false) || (isInert byte && !isSign byte)) (by decide +kernel) byte
    have part : (if byte.toNat < 0x80 then !isNamePart byte.toNat else false) = false := by
      split
      · rename_i small
        have inName := name_parts named _ (Text.ascii_glyph_of_mem small member)
        change isNamePart byte.toNat = true at inName
        rw [inName]
        rfl
      · rfl
    simpa [part] using checked
  constructor
  · intro glyph member
    rw [← Bool.not_eq_true]
    intro blank
    have noPart := blank_no_part blank
    rw [name_parts named glyph member] at noPart
    cases noPart
  · rintro rfl
    rw [isName, Text.glyphs] at named
    cases named
  · exact fun byte member => (calm member).1
  · exact fun byte member => (calm member).2

end Names

section Words

theorem read_register_text (register : Register) : readRegister? register.text = some register := by
  rw [readRegister?, Text.lower_case_same]
  · cases register <;> decide
  · cases register <;> decide
  · cases register <;> decide

theorem register_named (register : Register) : isName register.text = true := by
  have ascii : Text.Ascii register.text := by cases register <;> decide
  rw [isName, Text.glyphs_ascii ascii]
  cases register <;> decide

theorem read_base_text {text : Bytes} {base : AddressBase} (read : readBase? text = some base) :
    isName base.text = true ∧ readBase? base.text = some base := by
  rw [readBase?] at read
  split at read
  · rename_i register found
    cases read
    refine ⟨register_named register, ?_⟩
    simp [readBase?, AddressBase.text, read_register_text]
  · rename_i noRegister
    split at read
    · rename_i named
      cases read
      refine ⟨named, ?_⟩
      simp [readBase?, AddressBase.text, noRegister, named]
    · cases read

theorem size_word (size : OperandSize) :
    Text.Solid size.text ∧ size.text ≠ [] ∧ (∀ byte ∈ size.text, isOrdinary byte = true) ∧
      OperandSize.ofText? (Text.lowerCase size.text) = some size := by
  have solid : Text.Solid size.text := by cases size <;> exact Text.solid_of_all rfl
  have lower : Text.lowerCase size.text = size.text := by
    apply Text.lower_case_same solid.ascii
    cases size <;> decide
  rw [lower]
  refine ⟨solid, ?_⟩
  cases size <;> decide

end Words

structure FitsWord (value : Int) : Prop where
  above : -9223372036854775808 ≤ value
  below : value < 9223372036854775808

section Numbers

variable {value : Int}

theorem read_integer_fits {text : Bytes} (read : Text.readInteger 64 text = .ok value) :
    FitsWord value := by
  obtain ⟨above, below⟩ := @Text.read_integer_range 64 9223372036854775808 rfl text value read
  exact ⟨above, below⟩

theorem FitsWord.read_decimal (fits : FitsWord value) :
    Text.readInteger 64 (Text.decimal value) = .ok value :=
  @Text.read_integer_decimal 64 9223372036854775808 (by decide) rfl value fits.above fits.below

theorem decimal_ordinary (value : Int) :
    ∀ byte ∈ Text.decimal value, isOrdinary byte = true ∧ Text.isBlankByte byte = false ∧
      Text.lowerByte byte ≠ 0x65 := by
  intro byte member
  have checked := @forall_byte (fun byte => !Text.isDecimalPart byte ||
    (isOrdinary byte && !Text.isBlankByte byte && Text.lowerByte byte != 0x65))
    (by decide +kernel) byte
  simpa [Text.decimal_parts value byte member, and_assoc] using checked

theorem decimal_solid (value : Int) : Text.Solid (Text.decimal value) where
  ascii := fun byte member => ordinary_ascii (decimal_ordinary value byte member).1
  visible := fun byte member => (decimal_ordinary value byte member).2.1

/-- No register starts with a digit or a sign. -/
theorem read_register_decimal (value : Int) : readRegister? (Text.decimal value) = none := by
  obtain ⟨first, rest, digits⟩ := List.exists_cons_of_ne_nil (Text.decimal_ne_nil value)
  have noLetter := (decimal_ordinary value first (by simp [digits])).2.2
  rw [readRegister?, Text.lower_case_ascii (decimal_solid value).ascii, Register.ofText?,
    List.find?_eq_none, digits, List.map_cons]
  intro register _ same
  apply noLetter
  cases register <;> exact (List.cons.inj (beq_iff_eq.mp same)).1.symm

end Numbers

inductive Operand.Valid : Operand → Prop where
  | register (register : Register) : Valid (.register register)
  | immediate {value : Int} (fits : FitsWord value) : Valid (.immediate value)
  | label {name : Bytes} (named : isName name = true) (noRegister : readRegister? name = none)
      (noNumber : ∀ value, Text.readInteger 64 name ≠ .ok value) : Valid (.label name)
  | memory (size : Option OperandSize) {base : AddressBase} {displacement : Int}
      (own : readBase? base.text = some base) (fits : FitsWord displacement) :
      Valid (.memory size base displacement)

section Reading

variable {text address : Bytes} {size : Option OperandSize} {operand : Operand}

theorem valid_of_plain (read : readPlainOperand text = .ok operand) : operand.Valid := by
  rw [readPlainOperand] at read
  split at read
  · cases read
    exact .register _
  · rename_i noRegister
    split at read
    · rename_i value number
      cases read
      exact .immediate (read_integer_fits number)
    · rename_i problem noNumber
      split at read
      · rename_i named
        cases read
        refine .label named noRegister ?_
        intro value number
        rw [noNumber] at number
        cases number
      · cases read

theorem read_displacement_fits {rest : Option Bytes} {displacement : Int}
    (read : readDisplacement rest = some displacement) : FitsWord displacement := by
  cases rest with
  | none =>
      cases read
      exact ⟨by decide, by decide⟩
  | some text =>
      rw [readDisplacement] at read
      cases number : Text.readInteger 64 (text.filter (· != 0x20)) with
      | error problem =>
          rw [number] at read
          cases read
      | ok value =>
          rw [number] at read
          cases read
          exact read_integer_fits number

theorem valid_of_address (read : readAddress size address = .ok operand) : operand.Valid := by
  rw [readAddress] at read
  simp only at read
  split at read
  · cases read
  · rename_i displacement number
    split at read
    · rename_i base found
      cases read
      exact .memory size (read_base_text found).2 (read_displacement_fits number)
    · cases read

theorem valid_of_read (read : readOperand text = .ok operand) : operand.Valid := by
  rw [readOperand] at read
  simp only at read
  split at read
  · split at read
    · exact valid_of_address read
    · cases read
  · split at read
    · cases read
    · exact valid_of_plain read

end Reading

section Printing

variable {text address : Bytes} {size : Option OperandSize}

theorem separate_of_inert (unbroken : Text.Unbroken text) (some : text ≠ [])
    (inert : ∀ byte ∈ text, isInert byte = true) : Separate text :=
  ⟨unbroken.framed, some, split_pieces_inert inert 0⟩

theorem split_size_alone (unbroken : Text.Unbroken text) : splitSize text = (none, text) := by
  rw [splitSize, Text.split_head_alone unbroken]
  simp only
  split <;> rfl

theorem read_unbroken_operand (unbroken : Text.Unbroken text)
    (inert : ∀ byte ∈ text, isInert byte = true) : readOperand text = readPlainOperand text := by
  rw [readOperand, unbroken.framed.trim, split_size_alone unbroken]
  simp only
  split
  · cases inert 0x5b (by simp)
  · rfl

theorem read_bracketed_operand (framed : Text.Framed text) (inside : Text.Framed address)
    (split : splitSize text = (size, bracketed address)) :
    readOperand text = readAddress size address := by
  rw [readOperand, framed.trim, split]
  simp [bracketed, inside.trim]

theorem displacement_text_zero : Operand.displacementText 0 = [] := rfl

theorem displacement_text {displacement : Int} (fits : FitsWord displacement)
    (some : displacement ≠ 0) :
    ∃ sign digits, Operand.displacementText displacement = sign :: digits ∧ isSign sign = true ∧
      (∀ byte ∈ sign :: digits, isOrdinary byte = true ∧ Text.isBlankByte byte = false) ∧
      Text.readInteger 64 (sign :: digits) = .ok displacement := by
  have read := fits.read_decimal
  have ordinary := decimal_ordinary displacement
  rw [Operand.displacementText]
  cases displacement with
  | ofNat number =>
      have positive : 0 < Int.ofNat number :=
        Int.lt_iff_le_and_ne.mpr ⟨Int.natCast_nonneg number, Ne.symm some⟩
      rw [Text.decimal] at read ordinary
      rw [if_pos positive]
      refine ⟨0x2b, Text.decimalNat number, rfl, rfl, ?_, ?_⟩
      · intro byte member
        rcases List.mem_cons.mp member with rfl | inDigits
        · decide
        · exact ⟨(ordinary byte inDigits).1, (ordinary byte inDigits).2.1⟩
      · rwa [Text.readInteger, Text.split_sign_decimal] at read
  | negSucc number =>
      rw [if_neg (by omega), if_pos (by omega)]
      exact ⟨0x2d, Text.decimalNat (number + 1), rfl, rfl,
        fun byte member => ⟨(ordinary byte member).1, (ordinary byte member).2.1⟩, read⟩

section Address

variable {base : AddressBase} {displacement : Int}

theorem printed_address_shape (named : isName base.text = true) (fits : FitsWord displacement) :
    Text.Unbroken (base.text ++ Operand.displacementText displacement) ∧
      ∀ byte ∈ base.text ++ Operand.displacementText displacement, isInert byte = true := by
  have bare := name_bare named
  by_cases zero : displacement = 0
  · rw [zero, displacement_text_zero, List.append_nil]
    exact ⟨bare.unbroken, bare.inert⟩
  · obtain ⟨sign, digits, printed, _, calm, _⟩ := displacement_text fits zero
    have solid : Text.Solid digits :=
      ⟨fun byte member => ordinary_ascii (calm byte (by simp [member])).1,
        fun byte member => (calm byte (by simp [member])).2⟩
    obtain ⟨ordinary, visible⟩ := calm sign (by simp)
    rw [printed]
    refine ⟨bare.unbroken.around solid.unbroken (ordinary_ascii ordinary) visible, ?_⟩
    intro byte member
    rcases List.mem_append.mp member with inBase | inDisplacement
    · exact bare.inert byte inBase
    · exact ordinary_inert (calm byte inDisplacement).1

theorem read_printed_address (own : readBase? base.text = some base) (fits : FitsWord displacement)
    (size : Option OperandSize) :
    readAddress size (base.text ++ Operand.displacementText displacement) =
      .ok (.memory size base displacement) := by
  have bare := name_bare (read_base_text own).1
  have unsigned : ∀ byte ∈ base.text, (!isSign byte) = true := by
    intro byte member
    rw [bare.unsigned byte member]
    rfl
  rw [readAddress, splitDisplacement, List.takeWhile_append_of_pos unsigned,
    List.dropWhile_append_of_pos unsigned]
  by_cases zero : displacement = 0
  · rw [zero, displacement_text_zero]
    simp [readDisplacement, own]
  · obtain ⟨sign, digits, printed, signed, calm, read⟩ := displacement_text fits zero
    have spaceless : (sign :: digits).filter (· != 0x20) = sign :: digits := by
      rw [List.filter_eq_self]
      intro byte member
      rw [bne_iff_ne]
      rintro rfl
      cases (calm 0x20 member).2
    rw [printed, List.takeWhile_cons_of_neg (by simp [signed]),
      List.dropWhile_cons_of_neg (by simp [signed]), List.append_nil]
    simp [bare.some, bare.unbroken.framed.trim, readDisplacement, spaceless, read,
      Except.toOption, own]

end Address

theorem memory_text (size : Option OperandSize) (base : AddressBase) (displacement : Int) :
    (Operand.memory size base displacement).text =
      (match size with
        | some width => width.text ++ [0x20]
        | none => []) ++ bracketed (base.text ++ Operand.displacementText displacement) := by
  cases size <;>
    simp [Operand.text, bracketed, show utf8 " " = [0x20] from rfl,
      show utf8 "[" = [0x5b] from rfl, show utf8 "]" = [0x5d] from rfl]

theorem bracketed_unbroken (unbroken : Text.Unbroken text) : Text.Unbroken (bracketed text) :=
  Text.unbroken_nil.around (unbroken.around Text.unbroken_nil (by decide) (by decide))
    (by decide) (by decide)

theorem read_bracketed_alone (unbroken : Text.Unbroken text)
    (inert : ∀ byte ∈ text, isInert byte = true) :
    Separate (bracketed text) ∧ readOperand (bracketed text) = readAddress none text := by
  have around := bracketed_unbroken unbroken
  exact ⟨⟨around.framed, List.cons_ne_nil _ _, split_pieces_bracketed inert⟩,
    read_bracketed_operand around.framed unbroken.framed (split_size_alone around)⟩

theorem read_bracketed_sized (unbroken : Text.Unbroken text)
    (inert : ∀ byte ∈ text, isInert byte = true) (width : OperandSize) :
    Separate (width.text ++ [0x20] ++ bracketed text) ∧
      readOperand (width.text ++ [0x20] ++ bracketed text) = readAddress (some width) text := by
  have around := bracketed_unbroken unbroken
  have some : bracketed text ≠ [] := List.cons_ne_nil _ _
  obtain ⟨solid, someWidth, ordinary, found⟩ := size_word width
  have framed : Text.Framed (width.text ++ 0x20 :: bracketed text) :=
    solid.unbroken.framed.around around.framed someWidth some (by decide) Text.ascii_nil
  have split : splitSize (width.text ++ 0x20 :: bracketed text) =
      (.some width, bracketed text) := by
    rw [splitSize, Text.split_head_pair solid.unbroken someWidth around.framed some]
    simp [found, some]
  have before : ∀ byte ∈ width.text ++ [0x20], isInert byte = true := by
    intro byte member
    rcases List.mem_append.mp member with inWidth | inSpace
    · exact ordinary_inert (ordinary byte inWidth)
    · rw [List.mem_singleton.mp inSpace]
      decide
  refine ⟨⟨?_, by simp [someWidth], ?_⟩, ?_⟩
  · rwa [List.append_assoc]
  · intro piece rest
    rw [List.append_assoc, split_pieces_inert before, split_pieces_bracketed inert,
      @List.reverse_append _ _ (bracketed text), List.append_assoc]
  · rw [List.append_assoc]
    exact read_bracketed_operand framed unbroken.framed split

theorem read_printed_memory {base : AddressBase} {displacement : Int}
    (own : readBase? base.text = some base) (fits : FitsWord displacement) :
    Separate (Operand.memory size base displacement).text ∧
      readOperand (Operand.memory size base displacement).text =
        .ok (.memory size base displacement) := by
  obtain ⟨unbroken, inert⟩ := @printed_address_shape base displacement (read_base_text own).1 fits
  rw [memory_text, ← read_printed_address own fits size]
  cases size with
  | none => exact read_bracketed_alone unbroken inert
  | some width => exact read_bracketed_sized unbroken inert width

/-- An operand that can be read is printed as one piece of a line and is read back. -/
theorem Operand.Valid.read_printed {operand : Operand} (valid : operand.Valid) :
    Separate operand.text ∧ readOperand operand.text = .ok operand := by
  cases valid with
  | register register =>
      have bare := name_bare (register_named register)
      refine ⟨separate_of_inert bare.unbroken bare.some bare.inert, ?_⟩
      rw [Operand.text, read_unbroken_operand bare.unbroken bare.inert]
      simp [readPlainOperand, read_register_text]
  | @immediate value fits =>
      have unbroken := (decimal_solid value).unbroken
      have inert : ∀ byte ∈ Text.decimal value, isInert byte = true :=
        fun byte member => ordinary_inert (decimal_ordinary value byte member).1
      refine ⟨separate_of_inert unbroken (Text.decimal_ne_nil value) inert, ?_⟩
      rw [Operand.text, read_unbroken_operand unbroken inert]
      simp [readPlainOperand, read_register_decimal, fits.read_decimal]
  | @label name named noRegister noNumber =>
      have bare := name_bare named
      refine ⟨separate_of_inert bare.unbroken bare.some bare.inert, ?_⟩
      rw [Operand.text, read_unbroken_operand bare.unbroken bare.inert]
      cases number : Text.readInteger 64 name with
      | ok value => exact absurd number (noNumber value)
      | error problem => simp [readPlainOperand, noRegister, number, named]
  | memory size own fits => exact read_printed_memory own fits

end Printing

end ExprCompiler
