import ExprCompiler.Proofs.Charset.Common
import ExprCompiler.Proofs.Codegen.Reload

/-!
The reader takes a generated listing for exactly what was written. Every instruction comes back from
the row that it stands on, with its mnemonic and its operands, and the data are the formats, a
prompt and a cell for every variable. So the only thing that can keep such a listing from being
loaded is the size of memory.
-/

namespace ExprCompiler

def listingLines (options : CodegenOptions) (names : List Bytes) (expr : Expr) : List Line :=
  (({ peephole := options.peephole : Buffer }).emitAll
    (programLines options.division names expr)).lines

/-- The operands of generated code: registers, words, symbols of the program and the cells of
variables. -/
inductive Operand.Generated (names : List Bytes) : Operand → Prop where
  | register (source : Register) : Generated names (.register source)
  | word (value : Word) : Generated names (.immediate value.toInt)
  | symbol {name : Bytes} (known : name ∈ knownSymbols names) : Generated names (.label name)
  | cell {name : Bytes} (declared : name ∈ names) :
      Generated names (.memory (some .dword) (.label (variableLabel name)) 0)

def Line.operands : Line → List Operand
  | .instruction _ operands => operands
  | _ => []

/-- What a program has to be that was read from the listing for a tree over some variables. -/
structure ReadBack (options : CodegenOptions) (names : List Bytes) (expr : Expr) (text : Bytes)
    (program : Program) : Prop where
  globals : program.globals = [utf8 "main"]
  imports : program.imports = [utf8 "printf", utf8 "scanf"]
  labels : program.labels = [(utf8 "main", 0)]
  instructions : program.instructions.toList = instructionsFrom 1 (listingLines options names expr)
  rows : ∀ instruction ∈ program.instructions.toList,
    (Text.lines text)[instruction.line - 1]? = some (utf8 "  " ++ instruction.text)
  operands : ∀ instruction ∈ program.instructions.toList, ∀ operand ∈ instruction.operands,
    operand.Generated names
  constants : program.constants.map DataItem.visible =
    (utf8 "read_format", .bytes (utf8 "%d" ++ [0])) ::
      (utf8 "write_format", .bytes (utf8 "%d" ++ [10, 0])) ::
      names.map fun name => (promptLabel name, .bytes (name ++ utf8 " = " ++ [0]))
  reservations : program.reservations.map DataItem.visible =
    names.map fun name => (variableLabel name, .zeros 4)

section Operands

variable {names : List Bytes}

theorem merge_operands {property : Operand → Prop} {first second merged : Line}
    (merge : first.merge? second = some merged)
    (before : ∀ operand ∈ first.operands, property operand)
    (after : ∀ operand ∈ second.operands, property operand) :
    ∀ operand ∈ merged.operands, property operand := by
  obtain ⟨source, target, rfl, rfl, rfl⟩ := Line.merge_cases merge
  intro operand member
  rcases List.mem_cons.mp member with rfl | last
  · apply after
    exact List.mem_singleton_self _
  · apply before
    exact last

theorem read_lines_operands {name : Bytes} (declared : name ∈ names) :
    ∀ line ∈ readLines name, ∀ operand ∈ line.operands, operand.Generated names := by
  have known {symbol : Bytes} (member : symbol ∈ [utf8 "printf", utf8 "scanf",
      utf8 "read_format", utf8 "write_format"]) : symbol ∈ knownSymbols names := by
    apply List.mem_append_left
    apply List.mem_append_left
    exact member
  intro line inLines operand inOperands
  simp only [readLines, List.mem_cons, List.not_mem_nil, or_false] at inLines
  rcases inLines with rfl | rfl | rfl | rfl | rfl | rfl | rfl <;>
    simp only [Line.pushLabel, Line.call, Line.release, Line.op, Line.operands, List.mem_cons,
      List.not_mem_nil, or_false] at inOperands
  · rw [inOperands]
    exact .symbol (prompt_label_known declared)
  · rw [inOperands]
    exact .symbol (known (by simp))
  · rcases inOperands with rfl | rfl
    · exact .register .esp
    · exact .word 4
  · rw [inOperands]
    exact .symbol (variable_label_known declared)
  · rw [inOperands]
    exact .symbol (known (by simp))
  · rw [inOperands]
    exact .symbol (known (by simp))
  · rcases inOperands with rfl | rfl
    · exact .register .esp
    · exact .word 8

theorem finish_lines_operands :
    ∀ line ∈ finishLines, ∀ operand ∈ line.operands, operand.Generated names := by
  intro line inLines operand inOperands
  simp only [finishLines, List.mem_cons, List.not_mem_nil, or_false] at inLines
  rcases inLines with rfl | rfl | rfl | rfl | rfl <;>
    simp only [Line.pushLabel, Line.call, Line.release, Line.op, Line.operands, List.mem_cons,
      List.not_mem_nil, or_false] at inOperands
  · rw [inOperands]
    exact .symbol (by simp [knownSymbols])
  · rw [inOperands]
    exact .symbol (by simp [knownSymbols])
  · rcases inOperands with rfl | rfl
    · exact .register .esp
    · exact .word 8
  · rcases inOperands with rfl | rfl
    · exact .register .eax
    · exact .word 0

theorem operator_lines_operands (mode : DivisionMode) (kind : TokenKind) :
    ∀ line ∈ operatorLines mode kind, ∀ operand ∈ line.operands, operand.Generated names := by
  have registers (mnemonic : Mnemonic) (sources : List Register) :
      ∀ operand ∈ (Line.op mnemonic (sources.map Operand.register)).operands,
        operand.Generated names := by
    intro operand member
    obtain ⟨source, _, rfl⟩ := List.mem_map.mp member
    exact .register source
  have division : ∀ line ∈ divisionLines mode, ∀ operand ∈ line.operands,
      operand.Generated names := by
    intro line member
    rcases List.mem_cons.mp member with rfl | last
    · cases mode with
      | sign => exact registers .cdq []
      | zero =>
          intro operand inOperands
          rcases List.mem_cons.mp inOperands with rfl | isZero
          · exact .register .edx
          · rw [List.mem_singleton.mp isZero]
            exact .word 0
    · rw [List.mem_singleton.mp last]
      exact registers .idiv [.ebx]
  intro line member
  unfold operatorLines at member
  split at member
  · rw [List.mem_singleton.mp member]
    exact registers .add [.eax, .ebx]
  · rw [List.mem_singleton.mp member]
    exact registers .sub [.eax, .ebx]
  · rw [List.mem_singleton.mp member]
    exact registers .imul [.eax, .ebx]
  · exact division line member
  · rcases List.mem_append.mp member with inDivision | last
    · exact division line inDivision
    · rw [List.mem_singleton.mp last]
      exact registers .mov [.eax, .edx]
  · cases member

theorem expr_lines_operands (mode : DivisionMode) {expr : Expr}
    (arithmetic : expr.Arithmetic names) :
    ∀ line ∈ expr.code mode, ∀ operand ∈ line.operands, operand.Generated names := by
  have single {mnemonic : Mnemonic} (source : Register) :
      ∀ operand ∈ (Line.op mnemonic [.register source]).operands, operand.Generated names := by
    intro operand member
    rw [List.mem_singleton.mp member]
    exact .register source
  induction arithmetic with
  | literal word =>
      intro line inCode operand inOperands
      rw [List.mem_singleton.mp inCode] at inOperands
      rw [List.mem_singleton.mp inOperands]
      exact .word word
  | reference name declared =>
      intro line inCode operand inOperands
      rw [List.mem_singleton.mp inCode] at inOperands
      rw [List.mem_singleton.mp inOperands]
      exact .cell declared
  | grouping _ inner => exact inner
  | negation isMinus _ right =>
      intro line inCode
      rw [Expr.code_negation mode _ isMinus] at inCode
      simp only [List.mem_append, List.mem_cons, List.not_mem_nil, or_false] at inCode
      rcases inCode with inRight | rfl | rfl | rfl
      · exact right line inRight
      · exact single .eax
      · exact single .eax
      · exact single .eax
  | @binary _ _ op _ _ _ left right =>
      intro line inCode
      rw [Expr.code_binary] at inCode
      simp only [List.mem_append, List.mem_cons, List.not_mem_nil, or_false] at inCode
      rcases inCode with inLeft | inRight | rfl | rfl | inOperator | rfl
      · exact left line inLeft
      · exact right line inRight
      · exact single .ebx
      · exact single .eax
      · exact operator_lines_operands mode op.kind line inOperator
      · exact single .eax

theorem program_code_operands (options : CodegenOptions) {expr : Expr}
    (arithmetic : expr.Arithmetic names) :
    ∀ line ∈ programCode options names expr, ∀ operand ∈ line.operands,
      operand.Generated names := by
  have plain := expr_lines_operands options.division arithmetic
  intro line member
  rw [programCode, List.mem_append, List.mem_append] at member
  rcases member with inReads | inExpr | inFinish
  · obtain ⟨name, declared, inRead⟩ := List.mem_flatMap.mp inReads
    exact read_lines_operands declared line inRead
  · split at inExpr
    · exact forall_merge_pairs (fun _ _ _ => merge_operands) plain line inExpr
    · exact plain line inExpr
  · exact finish_lines_operands line inFinish

end Operands

section Rows

theorem row_of_instruction {number : Nat} {lines : List Line} {instruction : Instruction}
    (member : instruction ∈ instructionsFrom number lines) :
    number ≤ instruction.line ∧
      lines[instruction.line - number]? =
        some (.instruction instruction.mnemonic instruction.operands) := by
  induction lines generalizing number with
  | nil => cases member
  | cons line lines induction =>
      have later (inRest : instruction ∈ instructionsFrom (number + 1) lines) :
          number ≤ instruction.line ∧ (line :: lines)[instruction.line - number]? =
            some (.instruction instruction.mnemonic instruction.operands) := by
        obtain ⟨above, found⟩ := induction inRest
        have next : instruction.line - number = instruction.line - (number + 1) + 1 := by omega
        refine ⟨by omega, ?_⟩
        rw [next, List.getElem?_cons_succ]
        exact found
      cases line with
      | instruction mnemonic operands =>
          rcases List.mem_cons.mp member with rfl | inRest
          · refine ⟨Nat.le_refl _, ?_⟩
            rw [Nat.sub_self]
            rfl
          · exact later inRest
      | _ => exact later member

theorem instructions_from_listing (options : CodegenOptions) {names : List Bytes} {expr : Expr}
    (arithmetic : expr.Arithmetic names) :
    instructionsFrom 1 (listingLines options names expr) =
      instructionsFrom 6 (programCode options names expr) := by
  have none (number : Nat) (lines : List Line)
      (noCode : ∀ line ∈ lines, line.kindCode ≠ 0) : instructionsFrom number lines = [] := by
    induction lines generalizing number with
    | nil => rfl
    | cons line lines induction =>
        have here := noCode line List.mem_cons_self
        have rest := induction (number + 1) fun other member =>
          noCode other (List.mem_cons_of_mem _ member)
        cases line with
        | instruction mnemonic operands => exact absurd rfl here
        | _ => exact rest
  have header : instructionsFrom 1 headerLines = [] := none 1 headerLines (by decide)
  have data (number : Nat) : instructionsFrom number (dataLines names) = [] := by
    apply none
    intro line member
    rw [data_lines_eq] at member
    simp only [List.mem_cons, List.mem_append, List.mem_map] at member
    rcases member with rfl | rfl | rfl | ⟨name, _, rfl⟩ | rfl | ⟨name, _, rfl⟩ <;> exact
      Nat.succ_ne_zero _
  rw [listingLines, lines_of_program options arithmetic, instructions_from_append,
    instructions_from_append, header, data, List.append_nil]
  rfl

theorem lines_of_listing (options : CodegenOptions) {names : List Bytes} {expr : Expr}
    (identifiers : ∀ name ∈ names, IsIdentifier name) (arithmetic : expr.Arithmetic names) :
    Text.lines (listingText options names expr) =
      (listingLines options names expr).map Line.content ++ [[]] := by
  have rows := listing_rows identifiers (program_code_is_code options identifiers arithmetic)
  rw [← lines_of_program options arithmetic] at rows
  have text : listingText options names expr =
      ((listingLines options names expr).map Line.content).flatMap (· ++ [10]) :=
    rows_of_lines _
  rw [text]
  apply Text.lines_of_rows
  intro row member byte inRow
  obtain ⟨line, inLines, rfl⟩ := List.mem_map.mp member
  exact (Text.plain_byte_ascii (rows line inLines byte inRow)).2

end Rows

section Loading

/-- Placement fails at an item that reaches past the limit, and at nothing else. -/
theorem place_items_error {limit address : Nat} {items : List DataItem} {problem : LoadError}
    (failed : placeItems limit address items = .error problem) :
    ∃ item ∈ items, problem = .tooLarge item := by
  induction items generalizing address with
  | nil => cases failed
  | cons item items induction =>
      rw [placeItems] at failed
      split at failed
      · cases failed
        exact ⟨item, List.mem_cons_self, rfl⟩
      · split at failed
        · rename_i later
          cases failed
          obtain ⟨other, member, same⟩ := induction later
          exact ⟨other, List.mem_cons_of_mem _ member, same⟩
        · cases failed

theorem load_error {program : Program} {options : MachineOptions} {problem : LoadError}
    (failed : program.load options = .error problem) :
    ∃ item ∈ program.constants ++ program.reservations, problem = .tooLarge item := by
  unfold Program.load layout at failed
  split at failed
  · rename_i placing
    cases failed
    split at placing
    · rename_i constants
      cases placing
      obtain ⟨item, member, same⟩ := place_items_error constants
      exact ⟨item, List.mem_append_left _ member, same⟩
    · split at placing
      · rename_i reservations
        cases placing
        obtain ⟨item, member, same⟩ := place_items_error reservations
        exact ⟨item, List.mem_append_right _ member, same⟩
      · cases placing
  · cases failed

end Loading

section Generated

variable {options : CodegenOptions} {names : List Bytes} {expr : Expr}

theorem read_back_of_arithmetic (identifiers : ∀ name ∈ names, IsIdentifier name)
    (arithmetic : expr.Arithmetic names) :
    ReadBack options names expr (listingText options names expr)
      (generatedProgram (programCode options names expr) names) where
  globals := rfl
  imports := rfl
  labels := rfl
  instructions := (instructions_from_listing options arithmetic).symm
  rows := by
    intro instruction member
    rw [show (generatedProgram _ names).instructions.toList = _ from
      (instructions_from_listing options arithmetic).symm] at member
    obtain ⟨_, found⟩ := row_of_instruction member
    rw [lines_of_listing options identifiers arithmetic, List.getElem?_append_left,
      List.getElem?_map, found]
    · rfl
    · rw [List.length_map]
      exact (List.getElem?_eq_some_iff.mp found).1
  operands := by
    intro instruction member
    obtain ⟨_, found⟩ := row_of_instruction member
    have inCode := List.mem_of_getElem? found
    exact program_code_operands options arithmetic _ inCode
  constants := by
    simp only [generatedProgram, formatItems, List.map_cons, visible_items_from]
    rfl
  reservations := visible_items_from _ names

/-- A listing for a tree over a set of identifiers is read back as what was written, in UTF-8 or any
other set that keeps plain texts, and only its size can keep it from being loaded. -/
theorem generated_listing_read_back {found : List Bytes} {charset : Charset} {assembly : Assembly}
    (identifiers : ∀ name ∈ found, IsIdentifier name)
    (resolved : options.charsets.resolve options.encoding = .ok charset)
    (keeps : charset.KeepsPlain)
    (generated : generate options (Text.sortedSet found) expr = .ok assembly) :
    ∃ program, readListing assembly.bytes = .ok program ∧
      ReadBack options (Text.sortedSet found) expr assembly.bytes program ∧
      ∀ machine problem, loadListing assembly.bytes machine = .error problem →
        ∃ item ∈ program.constants ++ program.reservations, problem = .tooLarge item := by
  have sorted : ∀ name ∈ Text.sortedSet found, IsIdentifier name := by
    intro name member
    rw [Text.mem_sorted_set] at member
    exact identifiers name member
  have distinct := (Text.increasing_sorted_set found).nodup
  obtain ⟨supported, _⟩ := generate_cases generated
  have arithmetic := Expr.arithmetic_of_supported supported
  have read := @read_listing_text _ _ options sorted distinct arithmetic
  cases generated.symm.trans (generate_of_keeps_plain sorted supported resolved keeps)
  refine ⟨_, read, read_back_of_arithmetic sorted arithmetic, ?_⟩
  intro machine problem failed
  rw [loadListing, read] at failed
  exact load_error failed

/-- A negative literal, a variable that the tree does not use and pairs that are merged. -/
theorem remainder_listing_read_back :
    let name : Token := ⟨.identifier, utf8 "a", .absent, ⟨0, ⟨0, 0⟩⟩, ⟨0, 0⟩⟩
    let op : Token := ⟨.percent, utf8 "%", .absent, ⟨0, ⟨1, 1⟩⟩, ⟨1, 1⟩⟩
    let tree := Expr.binary (.reference name) op (.literal (.int (-7)))
    ∃ assembly program,
      generate { division := .zero } (Text.sortedSet [utf8 "b", utf8 "a"]) tree = .ok assembly ∧
      readListing assembly.bytes = .ok program ∧
      ReadBack { division := .zero } (Text.sortedSet [utf8 "b", utf8 "a"]) tree assembly.bytes
        program := by
  intro name op tree
  have identifiers : ∀ name ∈ [utf8 "b", utf8 "a"], IsIdentifier name := by
    intro name member
    simp only [List.mem_cons, List.not_mem_nil, or_false] at member
    rcases member with rfl | rfl
    · exact ⟨⟨0x62, [], rfl, by decide⟩, by decide⟩
    · exact ⟨⟨0x61, [], rfl, by decide⟩, by decide⟩
  have succeeds : (generate { division := .zero } (Text.sortedSet [utf8 "b", utf8 "a"])
      tree).toOption.isSome = true := by
    decide +kernel
  cases generated : generate { division := .zero } (Text.sortedSet [utf8 "b", utf8 "a"]) tree with
  | error problems =>
      rw [generated] at succeeds
      cases succeeds
  | ok assembly =>
      obtain ⟨program, read, back, _⟩ := @generated_listing_read_back { division := .zero } tree
        [utf8 "b", utf8 "a"] _ assembly identifiers (CharsetRegistry.resolve_canonical .utf8)
        CommonCharset.utf8_keeps_plain generated
      exact ⟨assembly, program, rfl, read, back⟩

end Generated

end ExprCompiler
