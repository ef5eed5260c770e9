import ExprCompiler.Proofs.Assembly.Reread

/-!
What can be relied on in an accepted listing. All names are distinct, all operands refer to names
that something defines or imports, reserved room is zero, and instructions stand in the order of
their lines.
-/

namespace ExprCompiler

open ListingReader

/-- What the lines of an accepted listing have been checked for. -/
structure Program.Accepted (program : Program) : Prop where
  named : ∀ label ∈ program.defined, isName label = true
  distinct : program.defined.Nodup
  targets : ∀ entry ∈ program.labels, entry.2 ≤ program.instructions.size
  operands : ∀ instruction ∈ program.instructions, ∀ operand ∈ instruction.operands, operand.Valid
  /-- The name in an operand is a label or imported, and no register. -/
  referenced : ∀ instruction ∈ program.instructions, ∀ operand ∈ instruction.operands, ∀ name,
    operand.symbol? = some name → isName name = true ∧ readRegister? name = none ∧
      (name ∈ program.defined ∨ program.isImported name = true)
  cleared : ∀ item ∈ program.reservations, ∀ byte ∈ item.contents.toBytes, byte = 0
  increasing : program.instructions.toList.Pairwise fun earlier later => earlier.line < later.line

theorem Operand.Valid.symbol {operand : Operand} {name : Bytes} (valid : operand.Valid)
    (refers : operand.symbol? = some name) : isName name = true ∧ readRegister? name = none := by
  cases valid with
  | register register => cases refers
  | immediate fits => cases refers
  | label named noRegister noNumber =>
      cases refers
      exact ⟨named, noRegister⟩
  | @memory size base displacement own fits =>
      cases base with
      | register register => cases refers
      | label label =>
          cases refers
          unfold readBase? at own
          rw [AddressBase.text] at own
          split at own
          · cases own
          · rename_i noRegister
            split at own
            · rename_i named
              exact ⟨named, noRegister⟩
            · cases own

namespace ListingReader

variable {reader after : ListingReader} {number : Nat} {label line raw : Bytes}

theorem instruction_line {instruction : Instruction}
    (read : readInstruction number line = .ok instruction) : instruction.line = number := by
  rw [readInstruction] at read
  dsimp only at read
  cases operands : readOperands (splitOperands (Text.splitHead line).2) with
  | error problem =>
      rw [operands] at read
      cases read
  | ok list =>
      rw [operands] at read
      cases read
      rfl

/-- What the lines before a number have put together: nothing but the labels of the program is
known, and the code comes from these lines in their order. -/
structure Orderly (number : Nat) (reader : ListingReader) : Prop where
  owned : ∀ name, (reader.defined.find? name).isSome = true → name ∈ reader.program.defined
  cleared : ∀ item ∈ reader.program.reservations, ∃ count, item.contents = .zeros count
  increasing : reader.program.instructions.toList.Pairwise
    fun earlier later => earlier.line < later.line
  before : ∀ instruction ∈ reader.program.instructions, instruction.line < number

theorem Orderly.next (orderly : reader.Orderly number) : reader.Orderly (number + 1) :=
  ⟨orderly.owned, orderly.cleared, orderly.increasing, fun instruction member =>
    Nat.lt_succ_of_lt (orderly.before instruction member)⟩

theorem Orderly.add_instruction (orderly : reader.Orderly number)
    (added : reader.addInstruction number line = .ok after) : after.Orderly (number + 1) := by
  obtain ⟨instruction, read, rfl⟩ := add_instruction_cases added
  have here := instruction_line read
  refine ⟨orderly.owned, orderly.cleared, ?_, ?_⟩
  · rw [Array.toList_push, List.pairwise_append]
    refine ⟨orderly.increasing, List.pairwise_singleton _ _, ?_⟩
    intro earlier member last isLast
    rw [List.mem_singleton.mp isLast, here]
    exact orderly.before earlier (Array.mem_def.mpr member)
  · intro other member
    rcases Array.mem_push.mp member with earlier | rfl
    · exact Nat.lt_succ_of_lt (orderly.before other earlier)
    · omega

theorem Orderly.add_label {grown : Program} (orderly : reader.Orderly number)
    (grows : grown.defined.Perm (label :: reader.program.defined))
    (cleared : ∀ item ∈ grown.reservations, ∃ count, item.contents = .zeros count)
    (same : grown.instructions = reader.program.instructions) (place : Section) :
    Orderly number ⟨place, reader.defined ++ [(label, number)], grown⟩ where
  owned name known := by
    apply grows.mem_iff.mpr
    rw [find_append, Option.isSome_or, Bool.or_eq_true] at known
    rcases known with before | last
    · exact List.mem_cons_of_mem _ (orderly.owned name before)
    · by_cases isLabel : label = name
      · exact isLabel ▸ List.mem_cons_self
      · simp [Table.find?, isLabel] at last
  cleared := cleared
  increasing := by
    rw [same]
    exact orderly.increasing
  before := by
    rw [same]
    exact orderly.before

theorem Orderly.add_data (orderly : reader.Orderly number)
    (added : addData { reader with defined := reader.defined ++ [(label, number)] } number label
      line = .ok after) : after.Orderly number := by
  have grows := add_data_defined added
  rcases add_data_cases added with ⟨content, rfl⟩ | ⟨count, rfl⟩
  · exact orderly.add_label grows orderly.cleared rfl reader.place
  · refine orderly.add_label grows ?_ rfl reader.place
    intro item member
    rcases List.mem_append.mp member with earlier | last
    · exact orderly.cleared item earlier
    · cases List.mem_singleton.mp last
      exact ⟨count, rfl⟩

theorem Orderly.add_line (orderly : reader.Orderly number)
    (read : reader.readLine number raw = .ok after) : after.Orderly (number + 1) := by
  rcases read_line_cases read with ⟨place, globals, imports, rfl⟩ | ⟨_, labelled | instruction⟩
  · have same := orderly.next
    exact ⟨same.owned, same.cleared, same.increasing, same.before⟩
  · obtain ⟨label, line, added⟩ := labelled
    have marked : Orderly number
        (markCode { reader with defined := reader.defined ++ [(label, number)] } label) :=
      orderly.add_label (mark_code_defined _ label) orderly.cleared rfl reader.place
    obtain ⟨_, _, rfl | inCode | inData⟩ := add_labelled_cases added
    · exact marked.next
    · exact marked.add_instruction inCode
    · exact (orderly.add_data inData).next
  · obtain ⟨line, added⟩ := instruction
    exact orderly.add_instruction added

/-- Names are checked when all lines are read. -/
theorem finish_cases {program : Program} (finish : reader.finish = .ok program) :
    reader.program = program ∧
      ∀ instruction ∈ program.instructions, ∀ operand ∈ instruction.operands, ∀ name,
        operand.symbol? = some name → reader.isKnown name = true := by
  unfold ListingReader.finish at finish
  split at finish
  · cases finish
  · rename_i checked
    cases finish
    refine ⟨rfl, ?_⟩
    intro instruction member operand inOperands name refers
    have clean := List.findSome?_eq_none_iff.mp checked instruction (Array.mem_def.mp member)
    rw [unknownSymbol?, List.findSome?_eq_none_iff] at clean
    have known := clean name (List.mem_filterMap.mpr ⟨operand, inOperands, refers⟩)
    cases isKnown : reader.isKnown name with
    | true => rfl
    | false =>
        rw [isKnown] at known
        cases known

theorem Orderly.start : Orderly 1 {} := by
  refine ⟨?_, ?_, List.Pairwise.nil, ?_⟩
  · intro name known
    cases known
  · intro item member
    cases member
  · intro instruction member
    cases Array.not_mem_empty _ member

end ListingReader

theorem program_accepted {text : Bytes} {program : Program}
    (read : readListing text = .ok program) : program.Accepted := by
  have linked := read_listing_linked read
  have valid : ∀ instruction ∈ program.instructions, ∀ operand ∈ instruction.operands,
      operand.Valid := by
    intro instruction member
    obtain ⟨_, _, fromLine⟩ := instructions_of_listing read instruction member
    exact (valid_of_instruction fromLine).operands
  unfold readListing at read
  split at read
  · cases read
  · rename_i reader lines
    obtain ⟨rfl, known⟩ := finish_cases read
    have orderly := read_lines_keep Orderly.add_line Orderly.start lines
    refine ⟨linked.names, linked.distinct, linked.targets, valid, ?_, ?_, orderly.increasing⟩
    · intro instruction member operand inOperands name refers
      obtain ⟨named, noRegister⟩ := (valid instruction member operand inOperands).symbol refers
      refine ⟨named, noRegister, ?_⟩
      have isKnown := known instruction member operand inOperands name refers
      rcases (Bool.or_eq_true _ _).mp isKnown with isLabel | imported
      · exact .inl (orderly.owned name isLabel)
      · exact .inr imported
    · intro item member byte inBytes
      obtain ⟨count, zeros⟩ := orderly.cleared item member
      rw [zeros] at inBytes
      exact List.eq_of_mem_replicate inBytes

end ExprCompiler
