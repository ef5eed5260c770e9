import ExprCompiler.Proofs.Assembly.Instruction
import ExprCompiler.Proofs.Assembly.Linked

/-!
Instructions of any accepted listing are read back as they are printed, whatever their spelling in
the listing was, since every instruction of a program was read off a line.
-/

namespace ExprCompiler

open ListingReader

namespace ListingReader

variable {reader after : ListingReader} {number : Nat} {label line raw : Bytes}

/-- A line adds nothing to the code, or one instruction that was read off it. -/
def Adds (number : Nat) (reader after : ListingReader) : Prop :=
  after.program.instructions = reader.program.instructions ∨
    ∃ text instruction, readInstruction number text = .ok instruction ∧
      after.program.instructions = reader.program.instructions.push instruction

theorem adds_instruction (added : reader.addInstruction number line = .ok after) :
    Adds number reader after := by
  obtain ⟨instruction, read, rfl⟩ := add_instruction_cases added
  exact .inr ⟨line, instruction, read, rfl⟩

theorem add_data_instructions (added : reader.addData number label line = .ok after) :
    after.program.instructions = reader.program.instructions := by
  rcases add_data_cases added with ⟨content, rfl⟩ | ⟨count, rfl⟩ <;> rfl

theorem adds_line (read : reader.readLine number raw = .ok after) : Adds number reader after := by
  rcases read_line_cases read with ⟨place, globals, imports, rfl⟩ | ⟨_, labelled | instruction⟩
  · exact .inl rfl
  · obtain ⟨label, line, added⟩ := labelled
    -- Defining and marking a label leaves the code as it was.
    obtain ⟨_, _, rfl | inCode | inData⟩ := add_labelled_cases added
    · exact .inl rfl
    · have step := adds_instruction inCode
      exact step
    · have same := add_data_instructions inData
      exact .inl same
  · obtain ⟨line, added⟩ := instruction
    exact adds_instruction added

def ReadOff (reader : ListingReader) : Prop :=
  ∀ instruction ∈ reader.program.instructions,
    ∃ row text, readInstruction row text = .ok instruction

theorem ReadOff.add_line (known : reader.ReadOff) (read : reader.readLine number raw = .ok after) :
    after.ReadOff := by
  intro instruction member
  rcases adds_line read with same | ⟨text, added, fromText, pushed⟩
  · rw [same] at member
    exact known instruction member
  · rw [pushed, Array.mem_push] at member
    rcases member with earlier | rfl
    · exact known instruction earlier
    · exact ⟨number, text, fromText⟩

end ListingReader

theorem instructions_of_listing {listing : Bytes} {program : Program}
    (read : readListing listing = .ok program) :
    ∀ instruction ∈ program.instructions,
      ∃ row text, readInstruction row text = .ok instruction := by
  obtain ⟨reader, lines, rfl⟩ := read_listing_lines read
  have start : ReadOff {} := by
    intro instruction member
    cases Array.not_mem_empty _ member
  exact read_lines_keep ReadOff.add_line start lines

/-- Operands and instructions are read back from what is printed for them: every operand that any
text is read as, and every instruction of every listing that is accepted. -/
theorem printed_code_reread :
    (∀ text operand, readOperand text = .ok operand → readOperand operand.text = .ok operand) ∧
      ∀ listing program, readListing listing = .ok program →
        ∀ instruction ∈ program.instructions, ∀ number,
          readInstruction number instruction.text = .ok { instruction with line := number } := by
  constructor
  · intro text operand read
    exact (valid_of_read read).read_printed.2
  · intro listing program accepted instruction member number
    obtain ⟨row, text, read⟩ := instructions_of_listing accepted instruction member
    exact (valid_of_instruction read).read_printed number

def looseOperand : Bytes := utf8 "DWORD [ esİ - 0x1_0 ]"

/-- A mnemonic in capitals with a wide space behind it, and a label that is no ASCII text. -/
def looseListing : Bytes := utf8 "section .text\nmaß: LEA\u2003ebx, Byte [maß +0b11]"

theorem ok_of_option {Problem Value : Type} {result : Except Problem Value} {value : Value}
    (found : result.toOption = some value) : result = .ok value := by
  cases result with
  | error problem => cases found
  | ok other =>
      cases found
      rfl

theorem loose_code_reread :
    readOperand looseOperand = .ok (.memory (some .dword) (.register .esi) (-16)) ∧
      readOperand (Operand.memory (some .dword) (.register .esi) (-16)).text =
        .ok (.memory (some .dword) (.register .esi) (-16)) ∧
      ∃ program, readListing looseListing = .ok program ∧
        ∃ instruction ∈ program.instructions, instruction.text = utf8 "lea ebx, byte [maß+3]" ∧
          readInstruction 7 instruction.text = .ok { instruction with line := 7 } := by
  have operandRead : readOperand looseOperand =
      .ok (.memory (some .dword) (.register .esi) (-16)) := ok_of_option (by decide +kernel)
  have accepted : (readListing looseListing).toOption.any (fun program =>
      program.instructions.any fun instruction =>
        instruction.text == utf8 "lea ebx, byte [maß+3]") = true := by decide +kernel
  obtain ⟨program, listingRead, holds⟩ := (Option.any_eq_true _ _).mp accepted
  obtain ⟨instruction, member, printed⟩ := Array.any_eq_true'.mp holds
  refine ⟨operandRead, printed_code_reread.1 _ _ operandRead, program, ok_of_option listingRead,
    instruction, member, beq_iff_eq.mp printed, ?_⟩
  exact printed_code_reread.2 _ _ (ok_of_option listingRead) instruction member 7

end ExprCompiler
