import ExprCompiler.Assembly.Listing
import ExprCompiler.Proofs.Assembly.Printed

/-!
Instructions as they are printed. What is read off a line has a mnemonic in lower case without white
space and operands that reading can give; the text of such an instruction is cut at its word and at
its commas as it was put together.
-/

namespace ExprCompiler

open ListingReader

section Pieces

variable {texts : List Bytes}

theorem joined_framed (separate : ∀ text ∈ texts, Separate text) (some : texts ≠ []) :
    Text.Framed (Text.join (utf8 ", ") texts) ∧ Text.join (utf8 ", ") texts ≠ [] := by
  induction texts with
  | nil => contradiction
  | cons text texts induction =>
      have here := separate text (by simp)
      cases texts with
      | nil => exact ⟨here.framed, here.some⟩
      | cons next later =>
          obtain ⟨framed, nonempty⟩ :=
            induction (fun other member => separate other (by simp [member])) (by simp)
          rw [Text.join_cons_cons, List.append_assoc]
          have ascii : Text.Ascii [0x20] := by decide
          exact ⟨here.framed.around framed here.some nonempty (by decide) ascii,
            by simp [here.some]⟩

theorem split_joined (separate : ∀ text ∈ texts, Separate text) (some : texts ≠ [])
    (indent : Bytes)
    (blank : ∀ byte ∈ indent, byte.toNat < 0x80 ∧ Text.isBlankByte byte = true) :
    splitPieces none 0 indent.reverse (Text.join (utf8 ", ") texts) = texts := by
  induction texts generalizing indent with
  | nil => contradiction
  | cons text texts induction =>
      have here := separate text (by simp)
      have trimmed : Text.trim (text.reverse ++ indent.reverse).reverse = text := by
        rw [← List.reverse_append, List.reverse_reverse, here.framed.trim_indented blank]
      cases texts with
      | nil =>
          have whole := here.whole indent.reverse []
          rw [List.append_nil] at whole
          rw [Text.join, whole, splitPieces, trimmed]
      | cons next later =>
          have others := induction (fun other member => separate other (by simp [member]))
            (by simp) [0x20] (by decide)
          rw [Text.join_cons_cons, List.append_assoc, here.whole]
          change Text.trim (text.reverse ++ indent.reverse).reverse ::
            splitPieces none 0 [0x20].reverse (Text.join (utf8 ", ") (next :: later)) = _
          rw [trimmed, others]

theorem split_operands_joined (separate : ∀ text ∈ texts, Separate text) :
    splitOperands (Text.join (utf8 ", ") texts) = texts := by
  by_cases some : texts = []
  · have blank : Text.trim [] = [] := Text.unbroken_nil.framed.trim
    rw [some, Text.join, splitOperands, blank, if_pos rfl]
  · obtain ⟨framed, nonempty⟩ := joined_framed separate some
    rw [splitOperands, framed.trim, if_neg nonempty]
    exact split_joined separate some [] (by simp)

end Pieces

theorem Mnemonic.text_of_text (name : Bytes) : (Mnemonic.ofText name).text = name := by
  rw [Mnemonic.ofText]
  cases found : Mnemonic.known.find? fun mnemonic => mnemonic.text == name with
  | none => rfl
  | some mnemonic =>
      have same := List.find?_some found
      exact beq_iff_eq.mp same

structure Instruction.Valid (instruction : Instruction) : Prop where
  word : Text.Unbroken instruction.mnemonic.text
  lower : Text.lowerCase instruction.mnemonic.text = instruction.mnemonic.text
  own : Mnemonic.ofText instruction.mnemonic.text = instruction.mnemonic
  operands : ∀ operand ∈ instruction.operands, operand.Valid
  /-- Nothing follows an empty word. -/
  led : instruction.mnemonic.text = [] → instruction.operands = []

section Instructions

variable {number : Nat} {line : Bytes} {instruction : Instruction}

theorem read_operands_printed {operands : List Operand}
    (own : ∀ operand ∈ operands, readOperand operand.text = .ok operand) :
    readOperands (operands.map Operand.text) = .ok operands := by
  induction operands with
  | nil => rfl
  | cons operand operands induction =>
      have later := induction fun other member => own other (by simp [member])
      rw [List.map_cons, readOperands, own operand (by simp), later]
      rfl

theorem read_operands_valid {texts : List Bytes} {operands : List Operand}
    (read : readOperands texts = .ok operands) : ∀ operand ∈ operands, operand.Valid := by
  induction texts generalizing operands with
  | nil =>
      cases read
      simp
  | cons text texts induction =>
      rw [readOperands] at read
      cases first : readOperand text with
      | error problem =>
          rw [first] at read
          cases read
      | ok operand =>
          cases rest : readOperands texts with
          | error problem =>
              rw [first, rest] at read
              cases read
          | ok others =>
              rw [first, rest] at read
              cases read
              intro other member
              rcases List.mem_cons.mp member with rfl | later
              · exact valid_of_read first
              · exact induction rest other later

theorem valid_of_instruction (read : readInstruction number line = .ok instruction) :
    instruction.Valid := by
  have unbroken := Text.split_head_unbroken line
  have alone := @Text.split_head_empty line
  rw [readInstruction] at read
  generalize Text.splitHead line = parts at unbroken alone read
  obtain ⟨head, rest⟩ := parts
  dsimp only at unbroken alone read
  cases found : readOperands (splitOperands rest) with
  | error problem =>
      rw [found] at read
      cases read
  | ok operands =>
      rw [found] at read
      cases read
      have printed : (Mnemonic.ofText (Text.lowerCase head)).text = Text.lowerCase head :=
        Mnemonic.text_of_text _
      refine ⟨?_, ?_, ?_, read_operands_valid found, ?_⟩
      · rw [printed]
        exact unbroken.lower_case
      · rw [printed, Text.lower_case_lower]
      · rw [printed]
      · rw [printed]
        intro empty
        have noHead : head = [] :=
          Classical.byContradiction fun some => Text.lower_case_ne_nil some empty
        have noPieces : splitOperands [] = [] := by
          rw [splitOperands, Text.unbroken_nil.framed.trim, if_pos rfl]
        rw [alone noHead, noPieces] at found
        cases found
        rfl

theorem Instruction.Valid.separate (valid : instruction.Valid) :
    ∀ text ∈ instruction.operands.map Operand.text, Separate text := by
  intro text member
  obtain ⟨operand, inOperands, rfl⟩ := List.mem_map.mp member
  exact (valid.operands operand inOperands).read_printed.1

theorem Instruction.Valid.split_text (valid : instruction.Valid) :
    Text.splitHead instruction.text =
      (instruction.mnemonic.text,
        Text.join (utf8 ", ") (instruction.operands.map Operand.text)) := by
  rw [Instruction.text, instructionText]
  split
  · rename_i none
    rw [List.isEmpty_iff.mp none, Text.split_head_alone valid.word]
    rfl
  · rename_i some
    rw [List.isEmpty_iff] at some
    have word : instruction.mnemonic.text ≠ [] := fun empty => some (valid.led empty)
    obtain ⟨framed, nonempty⟩ := joined_framed valid.separate (by simpa using some)
    rw [List.append_assoc]
    exact Text.split_head_pair valid.word word framed nonempty

/-- The text of an instruction is read as the instruction, on any line. -/
theorem Instruction.Valid.read_printed (valid : instruction.Valid) (number : Nat) :
    readInstruction number instruction.text = .ok { instruction with line := number } := by
  have pieces := split_operands_joined valid.separate
  have operands := read_operands_printed fun operand member =>
    (valid.operands operand member).read_printed.2
  rw [readInstruction, valid.split_text]
  simp only [pieces, operands, valid.lower, valid.own]
  rfl

end Instructions

end ExprCompiler
