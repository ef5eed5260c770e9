import ExprCompiler.Proofs.Charset.Common
import ExprCompiler.Proofs.Codegen.Reload

/-!
Compiled programs compute what the evaluator computes. A program whose dividends keep their sign
prompts for its variables, reads them and prints the value of its source in the environment of what
it read, as long as no division on the way fails.
-/

namespace ExprCompiler

def inputEnvironment (names : List Bytes) (values : List Word) : Environment :=
  names.zip (values.map Value.int)

section Environment

variable {names : List Bytes} {values : List Word}

def readNumber (names : List Bytes) (values : List Word) (name : Bytes) : Word :=
  (Table.find? name (names.zip values)).getD 0

theorem read_number_of_pair (distinct : names.Nodup) (count : values.length = names.length) :
    ∀ pair ∈ names.zip values, readNumber names values pair.1 = pair.2 := by
  intro pair member
  have keys : (names.zip values).map Prod.fst = names := List.map_fst_zip (Nat.le_of_eq count.symm)
  have found := find_of_mem (by rwa [keys]) member
  rw [readNumber, found, Option.getD_some]

theorem find_input (distinct : names.Nodup) (count : values.length = names.length) :
    ∀ name ∈ names, (inputEnvironment names values).find? name =
      some (.int (readNumber names values name)) := by
  have keys : (names.zip values).map Prod.fst = names := List.map_fst_zip (Nat.le_of_eq count.symm)
  have inputKeys : (inputEnvironment names values).map Prod.fst = names :=
    List.map_fst_zip (Nat.le_of_eq (by rw [List.length_map, count]))
  intro name member
  rw [← keys] at member
  obtain ⟨pair, inZip, rfl⟩ := List.mem_map.mp member
  apply find_of_mem (by rwa [inputKeys])
  rw [read_number_of_pair distinct count pair inZip, inputEnvironment, List.zip_map_right]
  exact List.mem_map.mpr ⟨pair, inZip, rfl⟩

end Environment

section Programs

variable {options : CompileOptions} {source listing : Bytes} {output : Output}
variable {machine : MachineOptions} {loaded : Loaded} {values : List Word}

/-- With either treatment of neighbours, a program answers with the word of its tree. -/
theorem answers_compiled (lawful : options.charsets.Lawful)
    (compiled : compile options source = .ok output)
    (held : output.assembly.Holds options.charsets listing)
    (load : loadListing listing machine = .ok loaded)
    (standard : machine.routines = standardRoutines)
    (room : loaded.image.dataEnd + 4 * max 2 output.folded.stackDepth ≤ loaded.image.stackTop)
    (scanned : scanWords output.variableNames.length machine.input = ⟨values, none⟩)
    {cells : Bytes → Word}
    (bound : ∀ pair ∈ output.variableNames.zip values, cells pair.1 = pair.2) :
    Answers output.variableNames loaded.machine.toCore
      (loaded.image.performAll (mainLines output.variableNames
        (treeLines options.toCodegenOptions output.folded)) loaded.machine.toCore)
      (output.folded.word options.division cells) := by
  obtain ⟨_, prepared⟩ := prepared_compiled lawful compiled held load standard room
  obtain ⟨_, _, _, top, _, unread, _⟩ := loaded_program (load_compiled lawful compiled held load)
  have arithmetic := compiled_arithmetic compiled
  have deep : loaded.image.dataEnd + 4 * output.folded.stackDepth ≤ loaded.machine.top := by
    rw [top]
    omega
  rw [← unread] at scanned
  have plain := answers_main prepared options.division arithmetic deep scanned bound
  cases peephole : options.peephole with
  | false =>
      rw [treeLines, peephole]
      exact plain
  | true =>
      have inStep := in_step_main prepared options.division arithmetic deep
      rw [treeLines, peephole, if_pos rfl]
      exact ⟨inStep.fault.trans plain.fault, inStep.agrees.written.trans plain.written,
        fun word same => by rw [inStep.agrees.registers]; exact plain.eax word same⟩

theorem word_of_target (compiled : compile options source = .ok output) (cells : Bytes → Word) :
    output.folded.word .sign cells = output.tree.word .sign cells := by
  obtain ⟨_, folded, _⟩ := compile_cases compiled
  rw [folded, CompileOptions.target]
  split
  · exact Expr.word_fold output.tree
  · rfl

/-- A compiled program prints the value of its source. -/
theorem compiled_program_correct (division : options.division = .sign)
    (lawful : options.charsets.Lawful)
    (compiled : compile options source = .ok output)
    (held : output.assembly.Holds options.charsets listing)
    (load : loadListing listing machine = .ok loaded)
    (standard : machine.routines = standardRoutines)
    (room : loaded.image.dataEnd + 4 * max 2 output.folded.stackDepth ≤ loaded.image.stackTop)
    (limit : loaded.image.program.instructions.size ≤ loaded.image.stepLimit)
    (scanned : scanWords output.variableNames.length machine.input = ⟨values, none⟩)
    (quiet : ∀ pair ∈
      output.tree.divisions (some (inputEnvironment output.variableNames values)),
      Word.divisionFaults pair.1 pair.2 = false) :
    ∃ word,
      output.tree.evaluate (some (inputEnvironment output.variableNames values)) =
        (.ok (.int word), some (inputEnvironment output.variableNames values)) ∧
      (loaded.machine.run loaded.image).2 = none ∧
      (loaded.machine.run loaded.image).1.output =
        output.variableNames.flatMap promptText ++ word.text ++ [10] ∧
      (loaded.machine.run loaded.image).1.halted = true ∧
      (loaded.machine.run loaded.image).1.exitCode = 0 := by
  obtain ⟨_, distinct⟩ := compiled_names compiled
  have count := @scan_words_length output.variableNames.length machine.input (by rw [scanned])
  rw [scanned] at count
  obtain ⟨word, computed, evaluated⟩ := Expr.evaluate_arithmetic (tree_arithmetic compiled)
    (find_input distinct count) quiet
  have answers := answers_compiled lawful compiled held load standard room scanned
    (read_number_of_pair distinct count)
  have runs := runs_compiled lawful compiled held load limit
  rw [division, word_of_target compiled, computed] at answers
  obtain ⟨_, _, _, _, _, _, fresh⟩ := loaded_program (load_compiled lawful compiled held load)
  refine ⟨word, evaluated, ?_, ?_, ?_, ?_⟩
  · have ending := runs.fault.trans answers.fault
    exact Option.map_eq_none_iff.mp ending
  · rw [Core.output, runs.core, answers.written, fresh]
    simp [answerOf, List.flatMap]
  · exact runs.halted answers.fault
  · rw [Machine.exitCode, runs.core]
    exact answers.eax word rfl

/-- A quotient of a negative number, with a part that is folded and pairs that are merged. -/
theorem quotient_program_correct :
    ∃ output loaded, compile {} (utf8 "a/b-(3+4)") = .ok output ∧
      loadListing output.assembly.bytes { input := utf8 "-20 3" } = .ok loaded ∧
      (loaded.machine.run loaded.image).2 = none ∧
      (loaded.machine.run loaded.image).1.output = utf8 "a = b = -13\n" := by
  obtain ⟨output, loaded, compiled, load, enough, checked⟩ := @loaded_of_check {}
    (utf8 "a/b-(3+4)") { input := utf8 "-20 3" }
    (fun output =>
      let environment := inputEnvironment output.variableNames [BitVec.ofInt 32 (-20), 3]
      decide (output.variableNames = [utf8 "a", utf8 "b"]) &&
      (output.tree.divisions (some environment)).all
        (fun pair => !Word.divisionFaults pair.1 pair.2) &&
      decide ((output.tree.evaluate (some environment)).1.toOption =
        some (.int (BitVec.ofInt 32 (-13)))))
    (CharsetRegistry.resolve_canonical .utf8) (by decide +kernel)
  simp only [Bool.and_eq_true, decide_eq_true_eq, List.all_eq_true, Bool.not_eq_true'] at checked
  obtain ⟨⟨names, quiet⟩, value⟩ := checked
  have scanned : scanWords 2 (utf8 "-20 3") = ⟨[BitVec.ofInt 32 (-20), 3], none⟩ := by
    decide +kernel
  have count : output.variableNames.length = 2 := by rw [names]; rfl
  obtain ⟨word, evaluated, ends, printed, _⟩ := compiled_program_correct rfl
    CharsetRegistry.common_lawful compiled (.inl rfl) load rfl enough.room enough.limit
    (by rw [count]; exact scanned) quiet
  rw [evaluated] at value
  cases Option.some.inj value
  refine ⟨output, loaded, compiled, load, ends, ?_⟩
  rw [printed, names]
  decide +kernel

end Programs

end ExprCompiler
