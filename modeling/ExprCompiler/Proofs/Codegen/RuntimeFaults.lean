import ExprCompiler.Proofs.Codegen.FoldedRun
import ExprCompiler.Proofs.Codegen.Intact
import ExprCompiler.Proofs.Machine.Faults

/-!
What can go wrong in the run of a compiled program. Its instructions are known ones with the
operands that they take, and all its labels have addresses, so whatever the stack has done to the
data, a run fails only because of its numbers, its input, its memory or the step limit. As straight
code it also takes every instruction at most once.
-/

namespace ExprCompiler

namespace Fault

def IsRuntime (fault : Fault) : Prop :=
  fault.kind ∈ [FaultKind.divideError, .input, .stepLimit, .memory]

theorem memory_is_runtime {fault : Fault} (memory : fault.kind = .memory) : fault.IsRuntime := by
  rw [IsRuntime, memory]
  decide

end Fault

/-- An effect that a program text is not to blame for. -/
def Effect.FailsAtRunTime (effect : Effect) : Prop :=
  ∀ fault, effect.fault = some fault → fault.IsRuntime

/-- The labels that a line takes words from; what a call names is no data. -/
def Line.dataLabels : Line → List Bytes
  | .instruction .call _ => []
  | .instruction _ operands => operands.filterMap Operand.symbol?
  | _ => []

def Image.Locates (image : Image) (line : Line) : Prop :=
  ∀ label ∈ line.dataLabels, ∃ address, image.symbols.find? label = some address

section Lines

variable {image : Image} {core : Core}

theorem quiet_fails_at_run_time (core : Core) : (⟨core, none⟩ : Effect).FailsAtRunTime :=
  fun _ same => nomatch same

theorem fails_at_run_time_of_kind {fault : Fault} (memory : fault.kind = .memory) :
    (⟨core, some fault⟩ : Effect).FailsAtRunTime := by
  intro other same
  cases same
  exact Fault.memory_is_runtime memory

theorem write_fails_at_run_time (address value : Word) :
    (core.write address value).FailsAtRunTime :=
  fun _ failed => Fault.memory_is_runtime (write_fails failed)

/-- An operand whose label has an address fails to load only where memory ends. -/
theorem load_fails {operand : Operand} {fault : Fault}
    (located : ∀ label ∈ operand.symbol?, ∃ address, image.symbols.find? label = some address)
    (failed : image.load core operand = .error fault) : fault.kind = .memory := by
  cases operand with
  | register source => cases failed
  | immediate value => cases failed
  | label name =>
      obtain ⟨address, placed⟩ := located name rfl
      simp only [Image.load, Image.resolve, placed] at failed
      cases failed
  | memory size base displacement =>
      cases base with
      | register source => exact read_fails failed
      | label name =>
          obtain ⟨address, placed⟩ := located name rfl
          simp only [Image.load, Image.address, Image.resolve, placed, Except.map] at failed
          exact read_fails failed

theorem with_word_fails_at_run_time {operand : Operand} {next : Word → Effect}
    (located : ∀ label ∈ operand.symbol?, ∃ address, image.symbols.find? label = some address)
    (later : ∀ word, (next word).FailsAtRunTime) :
    (image.withWord core operand next).FailsAtRunTime := by
  unfold Image.withWord
  split
  · exact later _
  · rename_i failed
    exact fails_at_run_time_of_kind (load_fails located failed)

theorem register_located (target : Register) : ∀ label ∈ (Operand.register target).symbol?,
    ∃ address, image.symbols.find? label = some address :=
  fun _ named => nomatch named

theorem combine_fails_at_run_time {target : Register} {source : Operand}
    {operation : Word → Word → Word}
    (located : ∀ label ∈ source.symbol?, ∃ address, image.symbols.find? label = some address) :
    (image.combine core (.register target) source operation).FailsAtRunTime := by
  apply with_word_fails_at_run_time (register_located target)
  intro first
  apply with_word_fails_at_run_time located
  intro second
  exact quiet_fails_at_run_time _

theorem pop_fails_at_run_time (target : Register) :
    (image.popInto core (.register target)).FailsAtRunTime := by
  unfold Image.popInto
  dsimp only
  split
  · exact quiet_fails_at_run_time _
  · rename_i failed
    exact fails_at_run_time_of_kind (read_fails failed)

theorem divide_fails_at_run_time (divisor : Word) : (core.divide divisor).FailsAtRunTime := by
  intro fault failed
  rw [Fault.IsRuntime, divide_fails failed]
  decide

theorem print_fails_at_run_time : (printRoutine core).FailsAtRunTime :=
  fun _ failed => Fault.memory_is_runtime (print_fails failed)

theorem scan_fails_at_run_time : (scanRoutine core).FailsAtRunTime := by
  intro fault failed
  rcases scan_fails failed with memory | input
  · exact Fault.memory_is_runtime memory
  · rw [Fault.IsRuntime, input]
    decide

theorem operand_located {mnemonic : Mnemonic} {operands : List Operand}
    (located : image.Locates (.instruction mnemonic operands)) (noCall : mnemonic ≠ .call)
    {operand : Operand} (member : operand ∈ operands) :
    ∀ label ∈ operand.symbol?, ∃ address, image.symbols.find? label = some address := by
  have labels : (Line.instruction mnemonic operands).dataLabels =
      operands.filterMap Operand.symbol? := by
    cases mnemonic with
    | call => exact absurd rfl noCall
    | _ => rfl
  intro label named
  apply located
  rw [labels]
  exact List.mem_filterMap.mpr ⟨operand, member, named⟩

/-- The lines that generated code is made of are known ones with operands that they can take. -/
theorem line_fails_at_run_time (standard : image.routines = standardRoutines) {line : Line}
    (measured : line.isMeasured = true) (located : image.Locates line) :
    (image.perform line core).FailsAtRunTime := by
  rw [Line.isMeasured, Bool.or_eq_true, beq_iff_eq] at measured
  rcases measured with tidy | rfl
  · unfold Line.isTidy at tidy
    split at tidy
    · apply with_word_fails_at_run_time (operand_located located (by decide) (by simp))
      exact fun word => write_fails_at_run_time _ word
    · exact pop_fails_at_run_time _
    · apply with_word_fails_at_run_time (operand_located located (by decide) (by simp))
      exact fun word => quiet_fails_at_run_time _
    · exact quiet_fails_at_run_time _
    · exact combine_fails_at_run_time (operand_located located (by decide) (by simp))
    · exact combine_fails_at_run_time (operand_located located (by decide) (by simp))
    · exact combine_fails_at_run_time (operand_located located (by decide) (by simp))
    · exact quiet_fails_at_run_time _
    · exact quiet_fails_at_run_time _
    · apply with_word_fails_at_run_time (operand_located located (by decide) (by simp))
      exact fun word => divide_fails_at_run_time word
    · rename_i name
      obtain rfl : name = utf8 "printf" := by simpa using tidy
      have printed : image.perform (.instruction .call [.label (utf8 "printf")]) core =
          printRoutine core := perform_print standard
      rw [printed]
      exact print_fails_at_run_time
    · cases tidy
  · rw [perform_scan standard]
    exact scan_fails_at_run_time

end Lines

section Runs

variable {image : Image} {code lines : List Line} {machine : Machine}

/-- A run over lines of straight code and the return behind them: it takes one step for each
instruction, from the first on, until it halts, reaches the limit or fails in a line. -/
structure Machine.Passes (image : Image) (machine : Machine) (lines : List Line) (count : Nat) :
    Prop where
  bounded : count ≤ lines.length + 1
  ends : machine.stepMany image count = machine.run image
  visits : ∀ earlier < count, ∃ before, machine.stepMany image earlier = (before, none) ∧
    before.halted = false ∧ before.ip = machine.ip + earlier
  halts : (machine.run image).2 = none → (machine.run image).1.halted = true
  fault : ∀ error, (machine.run image).2 = some error →
    error.fault = .stepLimit image.stepLimit ∨
      ∃ line ∈ lines, ∃ core, (image.perform line core).fault = some error.fault

theorem passes_failed {after : Machine} {error : RunError} (running : machine.halted = false)
    (step : machine.step image = (after, some error))
    (blamed : error.fault = .stepLimit image.stepLimit ∨
      ∃ line ∈ lines, ∃ core, (image.perform line core).fault = some error.fault) :
    machine.Passes image lines 1 := by
  have result := Machine.run_of_failed_step running step
  refine ⟨by omega, ?_, ?_, ?_, ?_⟩
  · rw [result, Machine.stepMany, step]
  · intro earlier first
    obtain rfl : earlier = 0 := by omega
    exact ⟨machine, rfl, running, (Int.add_zero _).symm⟩
  · intro quiet
    rw [result] at quiet
    cases quiet
  · intro other failed
    rw [result] at failed
    cases failed
    exact blamed

theorem passes_halted {after : Machine} (running : machine.halted = false)
    (step : machine.step image = (after, none)) (halted : after.halted = true) :
    machine.Passes image lines 1 := by
  have result := (Machine.run_of_step running step).trans (Machine.run_of_halted halted)
  refine ⟨by omega, ?_, ?_, ?_, ?_⟩
  · rw [result, Machine.stepMany, step]
    rfl
  · intro earlier first
    obtain rfl : earlier = 0 := by omega
    exact ⟨machine, rfl, running, (Int.add_zero _).symm⟩
  · intro _
    rw [result]
    exact halted
  · intro error failed
    rw [result] at failed
    cases failed

theorem passes_more {after : Machine} {line : Line} {count : Nat} (running : machine.halted = false)
    (step : machine.step image = (after, none)) (next : after.ip = machine.ip + 1)
    (later : after.Passes image lines count) : machine.Passes image (line :: lines) (count + 1) := by
  have result := Machine.run_of_step running step
  have bounded := later.bounded
  refine ⟨by rw [List.length_cons]; omega, ?_, ?_, ?_, ?_⟩
  · rw [result, Machine.stepMany, step]
    exact later.ends
  · intro earlier before
    cases earlier with
    | zero => exact ⟨machine, rfl, running, (Int.add_zero _).symm⟩
    | succ earlier =>
        obtain ⟨middle, reached, alive, place⟩ := later.visits earlier (by omega)
        refine ⟨middle, ?_, alive, ?_⟩
        · rw [Machine.stepMany, step]
          exact reached
        · rw [place, next]
          omega
  · rw [result]
    exact later.halts
  · intro error failed
    rw [result] at failed
    rcases later.fault error failed with limit | ⟨other, member, core, blamed⟩
    · exact .inl limit
    · exact .inr ⟨other, List.mem_cons_of_mem _ member, core, blamed⟩

theorem step_at_limit {instruction : Instruction} (running : machine.halted = false)
    (fetched : image.fetch? machine.ip = some instruction)
    (limited : (image.stepLimit : Int) ≤ machine.steps) :
    machine.step image = (machine, some ⟨none, .stepLimit image.stepLimit⟩) := by
  unfold Machine.step
  rw [running, if_neg (by decide), fetched]
  exact if_pos limited

theorem passes_facing (program : image.RunsStraight code) (facing : machine.Facing code lines) :
    ∃ count, machine.Passes image lines count := by
  induction lines generalizing machine with
  | nil =>
      obtain ⟨number, fetched⟩ := Machine.fetch_facing program facing
      by_cases limited : (image.stepLimit : Int) ≤ machine.steps
      · exact ⟨1, passes_failed facing.running (step_at_limit facing.running fetched limited)
          (.inl rfl)⟩
      · have frames : machine.advance.frames = none := facing.outermost
        have step : machine.step image = ({ machine.advance with halted := true }, none) := by
          unfold Machine.step
          rw [facing.running, if_neg (by decide), fetched]
          simp only [if_neg limited, Machine.execute, Machine.leave, frames]
        exact ⟨1, passes_halted facing.running step rfl⟩
  | cons line lines induction =>
      have fetched := Machine.fetch_facing program facing
      obtain ⟨taken, split, _⟩ := facing.place
      have member : line ∈ code := by simp [split]
      cases line with
      | instruction mnemonic operands =>
          obtain ⟨number, here⟩ := fetched
          by_cases limited : (image.stepLimit : Int) ≤ machine.steps
          · exact ⟨1, passes_failed facing.running (step_at_limit facing.running here limited)
              (.inl rfl)⟩
          have step := Machine.step_straight facing.running here (Int.not_le.mp limited)
            (program.straight _ member) (program.calls _ member)
          cases effect : image.perform (.instruction mnemonic operands) machine.toCore with
          | mk core fault =>
              rw [effect] at step
              cases fault with
              | some fault =>
                  refine ⟨1, passes_failed facing.running step (.inr ?_)⟩
                  exact ⟨_, List.mem_cons_self, machine.toCore, by rw [effect]⟩
              | none =>
                  obtain ⟨_, next⟩ := Machine.step_facing program facing step
                  obtain ⟨count, later⟩ := induction next
                  exact ⟨count + 1, passes_more facing.running step rfl later⟩
      | _ => cases program.straight _ member

end Runs

section Programs

variable {names : List Bytes} {image : Image} {limit floor : Nat}

theorem tree_lines_located (places : Places image names limit floor) (options : CodegenOptions)
    {expr : Expr} (arithmetic : expr.Arithmetic names) :
    ∀ line ∈ treeLines options expr, image.Locates line := by
  have located : ∀ line ∈ expr.code options.division, image.Locates line := by
    apply Expr.forall_code options.division image.Locates arithmetic
    · intro word label named
      cases named
    · intro name known label named
      obtain ⟨address, placed, _⟩ := places.cell name known
      cases List.mem_singleton.mp named
      exact ⟨address, placed⟩
    · have none : ∀ line ∈ Expr.workLines options.division, line.dataLabels = [] := by
        cases options.division <;> decide
      intro line member label named
      rw [none line member] at named
      cases named
  unfold treeLines
  split
  · apply forall_merge_pairs _ located
    intro first second merged merge firstLocated secondLocated
    obtain ⟨source, target, rfl, rfl, rfl⟩ := Line.merge_cases merge
    intro label named
    obtain ⟨operand, member, symbol⟩ := List.mem_filterMap.mp named
    rcases List.mem_cons.mp member with rfl | last
    · exact operand_located secondLocated (by decide) (by simp) label symbol
    · exact operand_located firstLocated (by decide) last label symbol
  · exact located

theorem push_label_located {label : Bytes} {address : Word}
    (placed : image.symbols.find? label = some address) :
    image.Locates (Line.pushLabel label) := by
  intro other named
  cases List.mem_singleton.mp named
  exact ⟨address, placed⟩

theorem without_labels_located {line : Line} (none : line.dataLabels = []) :
    image.Locates line := by
  intro label named
  rw [none] at named
  cases named

theorem main_lines_located {memory : Memory} {body : List Line}
    (texts : Texts image names limit memory) (places : Places image names limit floor)
    (located : ∀ line ∈ body, image.Locates line) :
    ∀ line ∈ mainLines names body, image.Locates line := by
  obtain ⟨readFormat, readPlaced, _⟩ := texts.readFormat
  obtain ⟨writeFormat, writePlaced, _⟩ := texts.writeFormat
  intro line member
  rcases List.mem_append.mp member with inReads | inRest
  · obtain ⟨name, declared, inRead⟩ := List.mem_flatMap.mp inReads
    obtain ⟨prompt, promptPlaced, _⟩ := texts.prompts name declared
    obtain ⟨cell, cellPlaced, _⟩ := places.cell name declared
    simp only [readLines, List.mem_cons, List.not_mem_nil, or_false] at inRead
    rcases inRead with rfl | rfl | rfl | rfl | rfl | rfl | rfl
    · exact push_label_located promptPlaced
    · exact without_labels_located rfl
    · exact without_labels_located rfl
    · exact push_label_located cellPlaced
    · exact push_label_located readPlaced
    · exact without_labels_located rfl
    · exact without_labels_located rfl
  · rcases List.mem_append.mp inRest with inBody | inAnswer
    · exact located line inBody
    · simp only [answerLines, List.mem_cons, List.not_mem_nil, or_false] at inAnswer
      rcases inAnswer with rfl | rfl | rfl | rfl
      · exact push_label_located writePlaced
      · exact without_labels_located rfl
      · exact without_labels_located rfl
      · exact without_labels_located rfl

end Programs

section Compiled

variable {options : CompileOptions} {source listing : Bytes} {output : Output}
variable {machine : MachineOptions} {loaded : Loaded}

/-- A compiled program ends after at most one step for each of its instructions, which it takes in
their order, and fails only for what happens at run time. Input that cannot be read ends it at the
question for it. -/
theorem compiled_run_ends (lawful : options.charsets.Lawful)
    (compiled : compile options source = .ok output)
    (held : output.assembly.Holds options.charsets listing)
    (load : loadListing listing machine = .ok loaded)
    (standard : machine.routines = standardRoutines) :
    (∃ count ≤ loaded.image.program.instructions.size,
      loaded.machine.stepMany loaded.image count = loaded.machine.run loaded.image ∧
      ∀ earlier < count, ∃ before, loaded.machine.stepMany loaded.image earlier = (before, none) ∧
        before.halted = false ∧ before.ip = earlier) ∧
    ((loaded.machine.run loaded.image).2 = none →
      (loaded.machine.run loaded.image).1.halted = true) ∧
    (∀ error, (loaded.machine.run loaded.image).2 = some error →
      error.fault.kind ∈ [FaultKind.divideError, .input, .stepLimit, .memory]) ∧
    (loaded.image.program.instructions.size ≤ loaded.image.stepLimit → ∀ values problem,
      scanWords output.variableNames.length machine.input = ⟨values, some problem⟩ →
      loaded.report = ⟨some (.input problem),
        (output.variableNames.take (values.length + 1)).flatMap promptText⟩) := by
  have loading := load_compiled lawful compiled held load
  have arithmetic := compiled_arithmetic compiled
  obtain ⟨identifiers, distinct⟩ := compiled_names compiled
  obtain ⟨place, texts, places⟩ := generated_data loading distinct
  obtain ⟨_, routines, _, top, inside, _⟩ := loaded_program loading
  have plain := tree_lines_plain options.toCodegenOptions arithmetic
  have measured := @main_lines_measured output.variableNames _
    (tree_lines_tidy options.toCodegenOptions arithmetic)
  have located := main_lines_located texts places
    (tree_lines_located places options.toCodegenOptions arithmetic)
  have size := compiled_size lawful compiled held load
  obtain ⟨_, _, _, _, start⟩ := load_cases loading
  have first : loaded.machine.ip = 0 := by
    rw [start]
    rfl
  obtain ⟨count, passes⟩ := passes_facing (runs_straight_main plain loading)
    (Machine.facing_main loading)
  refine ⟨⟨count, by rw [size]; exact passes.bounded, passes.ends, ?_⟩, passes.halts, ?_, ?_⟩
  · intro earlier before
    obtain ⟨middle, reached, running, ip⟩ := passes.visits earlier before
    rw [first, Int.zero_add] at ip
    exact ⟨middle, reached, running, ip⟩
  · intro error failed
    rcases passes.fault error failed with limited | ⟨line, member, core, blamed⟩
    · rw [limited, Fault.kind]
      decide
    · exact line_fails_at_run_time (routines.trans standard) (measured line member)
        (located line member) error.fault blamed
  · intro limit values problem scanned
    have room := call_room loading distinct
    have prepared : Prepared loaded.image output.variableNames place loaded.image.dataEnd
        loaded.machine.toCore :=
      ⟨routines.trans standard, identifiers, texts, places, by omega, by omega⟩
    exact report_of_failed_scan lawful compiled held load limit prepared scanned

/-- The second number is no number. The listing is written in UTF-16 and loaded as a text. -/
theorem word_for_number_ends_run :
    ∃ output listing loaded, compile { encoding := utf8 "UTF-16" } (utf8 "a/b") = .ok output ∧
      output.assembly.text .common = .ok listing ∧
      loadListing listing { input := utf8 "7 x" } = .ok loaded ∧
      loaded.report = ⟨some (.input .integerExpected), utf8 "a = b = "⟩ := by
  obtain ⟨first, loaded, compiledFirst, load, enough, named⟩ := @loaded_of_check {} (utf8 "a/b")
    { input := utf8 "7 x" } (fun output => output.variableNames = [utf8 "a", utf8 "b"])
    (CharsetRegistry.resolve_canonical .utf8) (by decide +kernel)
  obtain ⟨output, compiled, _, sameNames, text⟩ := text_again CharsetRegistry.common_lawful
    (CharsetRegistry.resolve_canonical .utf16) (CommonCharset.encodes_ascii .utf16) compiledFirst
    (.inl rfl) load
  have names : output.variableNames = [utf8 "a", utf8 "b"] :=
    sameNames.trans (of_decide_eq_true named)
  have scanned : scanWords output.variableNames.length (utf8 "7 x") =
      ⟨[7], some .integerExpected⟩ := by
    rw [names]
    decide +kernel
  obtain ⟨_, _, _, failed⟩ := compiled_run_ends CharsetRegistry.common_lawful compiled
    (.inr text) load rfl
  refine ⟨output, _, loaded, compiled, text, load, ?_⟩
  rw [failed enough.limit _ _ scanned, names]
  rfl

end Compiled

end ExprCompiler
