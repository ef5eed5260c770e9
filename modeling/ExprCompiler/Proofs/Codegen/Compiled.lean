import ExprCompiler.Compile
import ExprCompiler.Proofs.Charset.Common
import ExprCompiler.Proofs.Codegen.Run
import ExprCompiler.Proofs.Machine.Loaded
import ExprCompiler.Proofs.Text.SortedSet

/-!
From a source to a loaded program. A source that compiles is one arithmetic tree over identifiers;
whatever the options, its listing is loaded as the program for that tree, ready to run.
-/

namespace ExprCompiler

/-- A source that is one tree. -/
structure HasTree (source : Bytes) (tree : Expr) : Prop where
  lexed : (lex source).errors = []
  parsed : parse (lex source).tokens = ⟨[tree], []⟩

def CompileOptions.target (options : CompileOptions) (tree : Expr) : Expr :=
  if options.fold then tree.fold else tree

section Compile

variable {options : CompileOptions} {source : Bytes} {output : Output}

theorem single_expression_cases {tokens : List Token} {statements : List Expr} {tree : Expr}
    (single : singleExpression tokens statements = .ok tree) : statements = [tree] := by
  unfold singleExpression at single
  split at single
  · cases single
  · cases single
    rfl
  · cases single

theorem compile_cases (compiled : compile options source = .ok output) :
    HasTree source output.tree ∧ output.folded = options.target output.tree ∧
      output.variableNames = output.folded.names ∧
      generate options.toCodegenOptions output.variableNames output.folded =
        .ok output.assembly := by
  rw [compile, compileLogged] at compiled
  dsimp only at compiled
  split at compiled
  · cases compiled
  · rename_i lexed
    split at compiled
    · cases compiled
    · rename_i parsed
      split at compiled
      · cases compiled
      · rename_i tree single
        have statements := single_expression_cases single
        rw [Decidable.not_not] at lexed parsed
        rw [compileTree] at compiled
        dsimp only at compiled
        split at compiled
        · cases compiled
        · rename_i assembly generated
          cases compiled
          refine ⟨⟨lexed, ?_⟩, rfl, rfl, generated⟩
          rw [← statements, ← parsed]

theorem compile_of_tree {tree : Expr} {assembly : Assembly} (hasTree : HasTree source tree)
    (generated : generate options.toCodegenOptions (options.target tree).names
      (options.target tree) = .ok assembly) :
    compile options source =
      .ok ⟨(lex source).tokens, tree, options.target tree, (options.target tree).names,
        assembly⟩ := by
  unfold CompileOptions.target at generated ⊢
  rw [compile, compileLogged]
  dsimp only
  rw [if_neg (Decidable.not_not.mpr hasTree.lexed), hasTree.parsed]
  simp only [ne_eq, not_true_eq_false, if_false, singleExpression, compileTree, generated]

theorem tree_log_debug (options : CompileOptions) (tokens : List Token) (tree : Expr) :
    ∀ record ∈ (compileTree options tokens tree).2, record.level = .debug := by
  unfold compileTree
  dsimp only
  cases options.fold <;> split <;>
    simp [CompileLog.folded, CompileLog.failed, CompileLog.compiled, CompileLog.entry]

/-- Compiling logs for debugging only. -/
theorem compile_log_debug (options : CompileOptions) (source : Bytes) :
    ∀ record ∈ (compileLogged options source).2, record.level = .debug := by
  unfold compileLogged
  dsimp only
  split
  · simp [CompileLog.lexed, CompileLog.entry]
  · split
    · simp [CompileLog.lexed, CompileLog.parsed, CompileLog.entry]
    · split
      · simp [CompileLog.lexed, CompileLog.parsed, CompileLog.entry]
      · rw [List.forall_mem_append]
        exact ⟨by simp [CompileLog.lexed, CompileLog.parsed, CompileLog.entry],
          tree_log_debug options _ _⟩

theorem compiled_names (compiled : compile options source = .ok output) :
    (∀ name ∈ output.variableNames, IsIdentifier name) ∧ output.variableNames.Nodup := by
  obtain ⟨hasTree, folded, names, _⟩ := compile_cases compiled
  have same : output.folded.nameList = output.tree.nameList := by
    rw [folded, CompileOptions.target]
    split
    · exact Expr.name_list_fold output.tree
    · rfl
  rw [names, Expr.names]
  refine ⟨?_, (Text.increasing_sorted_set _).nodup⟩
  intro name member
  rw [Text.mem_sorted_set, same] at member
  exact names_of_source hasTree.parsed output.tree (by simp) name member

theorem compiled_arithmetic (compiled : compile options source = .ok output) :
    output.folded.Arithmetic output.variableNames := by
  obtain ⟨_, _, _, generated⟩ := compile_cases compiled
  exact Expr.arithmetic_of_supported (generate_cases generated).1

end Compile

section Load

variable {options : CompileOptions} {source listing : Bytes} {output : Output}
variable {machine : MachineOptions} {loaded : Loaded}

theorem load_compiled (lawful : options.charsets.Lawful)
    (compiled : compile options source = .ok output)
    (held : output.assembly.Holds options.charsets listing)
    (load : loadListing listing machine = .ok loaded) :
    (generatedProgram (mainLines output.variableNames
      (treeLines options.toCodegenOptions output.folded) ++ [Line.op .ret []])
      output.variableNames).load machine = .ok loaded := by
  obtain ⟨_, _, _, generated⟩ := compile_cases compiled
  obtain ⟨identifiers, distinct⟩ := compiled_names compiled
  obtain ⟨program, read, loading⟩ := load_listing_cases load
  have same := program_of_listing lawful identifiers distinct generated held read
  rw [program_code_eq] at same
  rw [← same]
  exact loading

theorem loaded_text (lawful : options.charsets.Lawful)
    (compiled : compile options source = .ok output)
    (held : output.assembly.Holds options.charsets listing)
    (load : loadListing listing machine = .ok loaded) :
    output.assembly.text options.charsets = .ok listing := by
  obtain ⟨_, _, _, generated⟩ := compile_cases compiled
  obtain ⟨identifiers, _⟩ := compiled_names compiled
  obtain ⟨_, read, _⟩ := load_listing_cases load
  rw [listing_of_read lawful identifiers generated held read]
  exact text_of_generated lawful identifiers generated

theorem loaded_program {program : Program} (load : program.load machine = .ok loaded) :
    loaded.image.program = program ∧ loaded.image.routines = machine.routines ∧
      loaded.image.stackTop = machine.stackTop ∧ loaded.machine.top = loaded.image.stackTop ∧
      loaded.image.stackTop ≤ loaded.machine.memory.size ∧
      loaded.machine.unread = machine.input ∧ loaded.machine.written = [] := by
  obtain ⟨placed, _, _, image, machineEq⟩ := load_cases load
  have bound := stack_top_bound machine
  have inside := stack_top_inside machine
  have size : (Memory.zeros machine.size).size = machine.size := Array.size_replicate
  refine ⟨by rw [image], by rw [image], by rw [image], ?_, ?_, by rw [machineEq], by rw [machineEq]⟩
  · rw [image, machineEq]
    exact Nat.mod_eq_of_lt bound
  · rw [image, machineEq, Placed.size_store_all, size]
    exact inside

theorem prepared_compiled (lawful : options.charsets.Lawful)
    (compiled : compile options source = .ok output)
    (held : output.assembly.Holds options.charsets listing)
    (load : loadListing listing machine = .ok loaded)
    (standard : machine.routines = standardRoutines)
    (room : loaded.image.dataEnd + 4 * max 2 output.folded.stackDepth ≤ loaded.image.stackTop) :
    ∃ limit, Prepared loaded.image output.variableNames limit loaded.image.dataEnd
      loaded.machine.toCore := by
  have loading := load_compiled lawful compiled held load
  obtain ⟨identifiers, distinct⟩ := compiled_names compiled
  obtain ⟨limit, texts, places⟩ := generated_data loading distinct
  obtain ⟨_, routines, _, top, inside, _⟩ := loaded_program loading
  refine ⟨limit, routines.trans standard, identifiers, texts, places, ?_, ?_⟩
  · omega
  · omega

theorem compiled_size (lawful : options.charsets.Lawful)
    (compiled : compile options source = .ok output)
    (held : output.assembly.Holds options.charsets listing)
    (load : loadListing listing machine = .ok loaded) :
    loaded.image.program.instructions.size =
      (mainLines output.variableNames
        (treeLines options.toCodegenOptions output.folded)).length + 1 := by
  rw [(loaded_program (load_compiled lawful compiled held load)).1]
  exact instruction_count (tree_lines_plain _ (compiled_arithmetic compiled))

/-- The run of a compiled program by the effect of its lines. -/
theorem runs_compiled (lawful : options.charsets.Lawful)
    (compiled : compile options source = .ok output)
    (held : output.assembly.Holds options.charsets listing)
    (load : loadListing listing machine = .ok loaded)
    (limit : loaded.image.program.instructions.size ≤ loaded.image.stepLimit) :
    loaded.machine.RunsTo loaded.image
      (loaded.image.performAll (mainLines output.variableNames
        (treeLines options.toCodegenOptions output.folded)) loaded.machine.toCore) :=
  runs_main (tree_lines_plain _ (compiled_arithmetic compiled))
    (load_compiled lawful compiled held load) limit

end Load

section Check

/-- Memory and the step limit are large enough for a compiled program. -/
structure Suffices (output : Output) (loaded : Loaded) : Prop where
  room : loaded.image.dataEnd + 4 * max 2 output.folded.stackDepth ≤ loaded.image.stackTop
  limit : loaded.image.program.instructions.size ≤ loaded.image.stepLimit

instance (output : Output) (loaded : Loaded) : Decidable (Suffices output loaded) :=
  decidable_of_iff
    (loaded.image.dataEnd + 4 * max 2 output.folded.stackDepth ≤ loaded.image.stackTop ∧
      loaded.image.program.instructions.size ≤ loaded.image.stepLimit)
    ⟨fun both => ⟨both.1, both.2⟩, fun enough => ⟨enough.room, enough.limit⟩⟩

variable {options : CompileOptions} {source : Bytes} {machine : MachineOptions}

/-- Whether a source compiles, loads with enough room and has some property. The program that its
listing is read as is known, so that the listing need not be read. -/
def checkLoaded (options : CompileOptions) (source : Bytes) (machine : MachineOptions)
    (property : Output → Bool) : Bool :=
  (compile options source).toOption.any fun output =>
    ((generatedProgram (programCode options.toCodegenOptions output.variableNames output.folded)
      output.variableNames).load machine).toOption.any fun loaded =>
        decide (Suffices output loaded) && property output

theorem read_compiled {output : Output}
    (unicode : options.charsets.resolve options.encoding = .ok CommonCharset.utf8.toCharset)
    (compiled : compile options source = .ok output) :
    readListing output.assembly.bytes = .ok (generatedProgram
      (programCode options.toCodegenOptions output.variableNames output.folded)
      output.variableNames) := by
  obtain ⟨_, _, _, generated⟩ := compile_cases compiled
  obtain ⟨identifiers, distinct⟩ := compiled_names compiled
  obtain ⟨supported, _⟩ := generate_cases generated
  have written := Except.ok.inj (generated.symm.trans
    (generate_of_keeps_plain identifiers supported unicode CommonCharset.utf8_keeps_plain))
  rw [written]
  exact read_listing_text identifiers distinct (compiled_arithmetic compiled)

theorem loaded_of_check {property : Output → Bool}
    (unicode : options.charsets.resolve options.encoding = .ok CommonCharset.utf8.toCharset)
    (checked : checkLoaded options source machine property = true) :
    ∃ output loaded, compile options source = .ok output ∧
      loadListing output.assembly.bytes machine = .ok loaded ∧ Suffices output loaded ∧
      property output = true := by
  unfold checkLoaded at checked
  cases compiled : compile options source with
  | error problem =>
      rw [compiled] at checked
      cases checked
  | ok output =>
      simp only [compiled, Except.toOption, Option.any_some] at checked
      split at checked
      · rename_i loaded load
        rw [Option.any_some, Bool.and_eq_true, decide_eq_true_eq] at checked
        refine ⟨output, loaded, rfl, ?_, checked⟩
        rw [loadListing, read_compiled unicode compiled]
        exact load
      · cases checked

end Check

end ExprCompiler
