import ExprCompiler.Proofs.Assembly.Peephole
import ExprCompiler.Proofs.Codegen.Arithmetic
import ExprCompiler.Proofs.Codegen.Names

/-!
The lines of generated code. Whatever the tree, they are instructions that a listing can hold, and
the symbols in them are routines or data of the program. The peephole pass keeps that so.
-/

namespace ExprCompiler

def knownSymbols (names : List Bytes) : List Bytes :=
  [utf8 "printf", utf8 "scanf", utf8 "read_format", utf8 "write_format"] ++
    names.map promptLabel ++ names.map variableLabel

/-- A line of generated code: an instruction whose operands can be read back and refer to known
symbols only. -/
def Line.IsCode (names : List Bytes) (line : Line) : Prop :=
  ∃ mnemonic operands, line = .instruction mnemonic operands ∧ mnemonic ∈ Mnemonic.known ∧
    ∀ operand ∈ operands,
      operand.Readable ∧ ∀ symbol ∈ operand.symbol?, symbol ∈ knownSymbols names

variable {names : List Bytes}

theorem prompt_label_known {name : Bytes} (declared : name ∈ names) :
    promptLabel name ∈ knownSymbols names :=
  List.mem_append_left _ (List.mem_append_right _ (List.mem_map_of_mem declared))

theorem variable_label_known {name : Bytes} (declared : name ∈ names) :
    variableLabel name ∈ knownSymbols names :=
  List.mem_append_right _ (List.mem_map_of_mem declared)

theorem is_code_registers {mnemonic : Mnemonic} (known : mnemonic ∈ Mnemonic.known)
    (registers : List Register) :
    Line.IsCode names (Line.op mnemonic (registers.map Operand.register)) := by
  refine ⟨mnemonic, _, rfl, known, ?_⟩
  intro operand member
  obtain ⟨register, _, rfl⟩ := List.mem_map.mp member
  exact ⟨readable_register register, by simp [Operand.symbol?]⟩

theorem is_code_register_immediate {mnemonic : Mnemonic} (known : mnemonic ∈ Mnemonic.known)
    (register : Register) {value : Int} (above : -9223372036854775808 ≤ value) (below : value < 9223372036854775808) :
    Line.IsCode names (Line.op mnemonic [.register register, .immediate value]) := by
  refine ⟨mnemonic, _, rfl, known, ?_⟩
  intro operand member
  rcases List.mem_cons.mp member with rfl | last
  · exact ⟨readable_register register, by simp [Operand.symbol?]⟩
  · rw [List.mem_singleton.mp last]
    exact ⟨readable_immediate above below, by simp [Operand.symbol?]⟩

theorem is_code_push_word (word : Word) :
    Line.IsCode names (Line.op .push [.immediate word.toInt]) := by
  have above := word.le_toInt
  have below := word.toInt_lt
  refine ⟨.push, _, rfl, by decide, ?_⟩
  intro operand member
  rw [List.mem_singleton.mp member]
  exact ⟨readable_immediate (by omega) (by omega), by simp [Operand.symbol?]⟩

theorem is_code_label {mnemonic : Mnemonic} (known : mnemonic ∈ Mnemonic.known) {name : Bytes}
    (symbol : IsSymbol name) (member : name ∈ knownSymbols names) :
    Line.IsCode names (Line.op mnemonic [.label name]) := by
  refine ⟨mnemonic, _, rfl, known, ?_⟩
  intro operand inOperands
  rw [List.mem_singleton.mp inOperands]
  exact ⟨readable_label symbol, by simpa [Operand.symbol?] using member⟩

theorem is_code_merge {first second merged : Line} (merge : first.merge? second = some merged)
    (firstCode : first.IsCode names) (secondCode : second.IsCode names) : merged.IsCode names := by
  obtain ⟨source, target, rfl, rfl, rfl⟩ := Line.merge_cases merge
  obtain ⟨_, _, same, _, fine⟩ := firstCode
  cases same
  obtain ⟨_, _, same, _, otherFine⟩ := secondCode
  cases same
  refine ⟨.mov, _, rfl, by decide, ?_⟩
  intro operand member
  rcases List.mem_cons.mp member with rfl | last
  · exact otherFine _ (by simp)
  · exact fine _ (by simpa using last)

/-- What holds of lines and of what they merge to holds after the peephole pass. -/
theorem forall_merge_pairs {property : Line → Prop}
    (closed : ∀ first second merged, first.merge? second = some merged → property first →
      property second → property merged) {lines : List Line}
    (all : ∀ line ∈ lines, property line) : ∀ line ∈ Line.mergePairs lines, property line := by
  fun_induction Line.mergePairs lines with
  | case1 first second rest merged merge induction =>
      have here := closed first second merged merge (all first (by simp)) (all second (by simp))
      intro line member
      rcases List.mem_cons.mp member with rfl | later
      · exact here
      · exact induction (fun other inRest => all other (by simp [inRest])) line later
  | case2 first second rest noMerge induction =>
      intro line member
      rcases List.mem_cons.mp member with rfl | later
      · exact all line (by simp)
      · exact induction (fun other inRest => all other (List.mem_cons_of_mem _ inRest)) line later
  | case3 lines short => exact all

theorem read_lines_are_code {name : Bytes} (identifier : IsIdentifier name)
    (declared : name ∈ names) : ∀ line ∈ readLines name, line.IsCode names := by
  have prompt := @is_code_label names .push (by decide) _ (prompt_label_symbol identifier)
    (prompt_label_known declared)
  have cell := @is_code_label names .push (by decide) _ (variable_label_symbol identifier)
    (variable_label_known declared)
  have format := @is_code_label names .push (by decide) (utf8 "read_format") (by decide)
    (by simp [knownSymbols])
  have print := @is_code_label names .call (by decide) (utf8 "printf") (by decide)
    (by simp [knownSymbols])
  have scan := @is_code_label names .call (by decide) (utf8 "scanf") (by decide)
    (by simp [knownSymbols])
  have release (bytes : Int) (above : -9223372036854775808 ≤ bytes) (below : bytes < 9223372036854775808) :=
    @is_code_register_immediate names .add (by decide) .esp bytes above below
  intro line member
  simp only [readLines, List.mem_cons, List.not_mem_nil, or_false] at member
  rcases member with rfl | rfl | rfl | rfl | rfl | rfl | rfl
  · exact prompt
  · exact print
  · exact release 4 (by decide) (by decide)
  · exact cell
  · exact format
  · exact scan
  · exact release 8 (by decide) (by decide)

theorem finish_lines_are_code : ∀ line ∈ finishLines, line.IsCode names := by
  have format := @is_code_label names .push (by decide) (utf8 "write_format") (by decide)
    (by simp [knownSymbols])
  have print := @is_code_label names .call (by decide) (utf8 "printf") (by decide)
    (by simp [knownSymbols])
  intro line member
  simp only [finishLines, List.mem_cons, List.not_mem_nil, or_false] at member
  rcases member with rfl | rfl | rfl | rfl | rfl
  · exact format
  · exact print
  · exact is_code_register_immediate (by decide) .esp (by decide) (by decide)
  · exact is_code_register_immediate (by decide) .eax (by decide) (by decide)
  · exact is_code_registers (by decide) []

theorem operator_lines_are_code (mode : DivisionMode) (kind : TokenKind) :
    ∀ line ∈ operatorLines mode kind, line.IsCode names := by
  have prepare : ∀ line ∈ divisionLines mode, line.IsCode names := by
    intro line member
    simp only [divisionLines, List.mem_cons, List.not_mem_nil, or_false] at member
    rcases member with rfl | rfl
    · cases mode with
      | sign => exact is_code_registers (by decide) []
      | zero => exact is_code_register_immediate (by decide) .edx (by decide) (by decide)
    · exact is_code_registers (by decide) [.ebx]
  intro line member
  unfold operatorLines at member
  split at member
  · rw [List.mem_singleton.mp member]
    exact is_code_registers (by decide) [.eax, .ebx]
  · rw [List.mem_singleton.mp member]
    exact is_code_registers (by decide) [.eax, .ebx]
  · rw [List.mem_singleton.mp member]
    exact is_code_registers (by decide) [.eax, .ebx]
  · exact prepare line member
  · rcases List.mem_append.mp member with inDivision | last
    · exact prepare line inDivision
    · rw [List.mem_singleton.mp last]
      exact is_code_registers (by decide) [.eax, .edx]
  · cases member

theorem expr_lines_are_code (identifiers : ∀ name ∈ names, IsIdentifier name)
    (mode : DivisionMode) {expr : Expr} (arithmetic : expr.Arithmetic names) :
    ∀ line ∈ expr.code mode, line.IsCode names := by
  induction arithmetic with
  | literal word =>
      intro line member
      rw [List.mem_singleton.mp member]
      exact is_code_push_word word
  | reference name known =>
      intro line member
      rw [List.mem_singleton.mp member]
      refine ⟨.push, _, rfl, by decide, ?_⟩
      intro operand inOperands
      rw [List.mem_singleton.mp inOperands]
      exact ⟨readable_word (variable_label_symbol (identifiers _ known)),
        by simpa [Operand.symbol?] using variable_label_known known⟩
  | grouping _ inner => exact inner
  | @negation op right isMinus _ rightCode =>
      intro line member
      simp only [Expr.code, isMinus, if_true, List.mem_append, List.mem_singleton] at member
      rcases member with ((inRight | rfl) | rfl) | rfl
      · exact rightCode line inRight
      · exact is_code_registers (by decide) [.eax]
      · exact is_code_registers (by decide) [.eax]
      · exact is_code_registers (by decide) [.eax]
  | @binary left right op _ _ _ leftCode rightCode =>
      intro line member
      simp only [Expr.code, List.mem_append, List.mem_cons, List.not_mem_nil, or_false] at member
      rcases member with (((inLeft | inRight) | rfl | rfl) | inOperator) | rfl
      · exact leftCode line inLeft
      · exact rightCode line inRight
      · exact is_code_registers (by decide) [.ebx]
      · exact is_code_registers (by decide) [.eax]
      · exact operator_lines_are_code mode op.kind line inOperator
      · exact is_code_registers (by decide) [.eax]

end ExprCompiler
