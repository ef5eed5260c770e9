import ExprCompiler.Proofs.Charset.Common
import ExprCompiler.Proofs.Codegen.Reload

/-!
The peephole pass cannot be observed. The program without merged pairs and the one with them are
loaded alike and end alike, with the same output, registers, stack and variables, also when a run
stops at a fault.
-/

namespace ExprCompiler

structure SameEnd (first second : Loaded) : Prop where
  fault : (second.machine.run second.image).2.map RunError.fault =
    (first.machine.run first.image).2.map RunError.fault
  output : (second.machine.run second.image).1.output = (first.machine.run first.image).1.output
  registers : (second.machine.run second.image).1.registers =
    (first.machine.run first.image).1.registers
  stack : (second.machine.run second.image).1.stack second.image =
    (first.machine.run first.image).1.stack first.image
  reservations : (second.machine.run second.image).1.reservations second.image =
    (first.machine.run first.image).1.reservations first.image

section Views

variable {floor : Nat} {plain merged : Machine} {image other : Image}

/-- The stack is above the part of memory where cores that agree may differ. -/
theorem stack_of_agrees (agrees : Agrees floor plain.toCore merged.toCore)
    (top : other.stackTop = image.stackTop) (narrow : image.stackTop < 0x100000000) :
    merged.stack other = plain.stack image := by
  rw [Machine.stack, Machine.stack, agrees.registers, top]
  apply List.map_congr_left
  intro index member
  have inRange := List.mem_range.mp member
  have address : (BitVec.ofNat 32 (plain.registers.esp.toNat + 4 * index)).toNat =
      plain.registers.esp.toNat + 4 * index := by
    rw [BitVec.toNat_ofNat]
    exact Nat.mod_eq_of_lt (by omega)
  apply Memory.load_congr
  intro place above _
  refine agrees.bytes place (.inr ?_)
  rw [address] at above
  exact Nat.le_trans (Nat.le_add_right _ _) above

theorem reservations_eq (machine : Machine) (image : Image) :
    machine.reservations image =
      (image.program.reservations.map DataItem.visible).map fun item =>
        (item.1, machine.memory.slice ((image.symbols.find? item.1).getD 0).toNat item.2.size) := by
  rw [Machine.reservations, List.map_map]
  rfl

theorem reservations_of_agrees {names : List Bytes} {limit : Nat} {code otherCode : List Line}
    (agrees : Agrees floor plain.toCore merged.toCore)
    (program : image.program = generatedProgram code names)
    (otherProgram : other.program = generatedProgram otherCode names)
    (symbols : other.symbols = image.symbols) (places : Places image names limit floor) :
    merged.reservations other = plain.reservations image := by
  have cells (code : List Line) : (generatedProgram code names).reservations.map DataItem.visible =
      names.map fun name => (variableLabel name, .zeros 4) := visible_items_from _ names
  rw [reservations_eq, reservations_eq, program, otherProgram, cells, cells, symbols]
  apply List.map_congr_left
  intro item member
  obtain ⟨name, inNames, rfl⟩ := List.mem_map.mp member
  obtain ⟨address, placed, _, below⟩ := places.cell name inNames
  have found : image.symbols.find? (variableLabel name) = some address := placed
  have size : (Contents.zeros 4).size = 4 := rfl
  simp only [found, Option.getD_some, size]
  congr 1
  apply Memory.slice_congr agrees.size
  intro place _ inside
  exact agrees.bytes place (.inl (by omega))

end Views

theorem same_end_of_in_step {first second : Loaded} {names : List Bytes} {limit floor base height : Nat}
    {code otherCode : List Line} {plain merged : Effect}
    (firstRuns : first.machine.RunsTo first.image plain)
    (secondRuns : second.machine.RunsTo second.image merged)
    (inStep : InStep floor base height plain merged)
    (program : first.image.program = generatedProgram code names)
    (otherProgram : second.image.program = generatedProgram otherCode names)
    (image : second.image = { first.image with program := second.image.program })
    (narrow : first.image.stackTop < 0x100000000) (places : Places first.image names limit floor) :
    SameEnd first second := by
  have agrees : Agrees floor (first.machine.run first.image).1.toCore
      (second.machine.run second.image).1.toCore := by
    rw [firstRuns.core, secondRuns.core]
    exact inStep.agrees
  constructor
  · rw [firstRuns.fault, secondRuns.fault, inStep.fault]
  · rw [Core.output, Core.output, agrees.written]
  · exact agrees.registers
  · exact stack_of_agrees agrees (by rw [image]) narrow
  · exact reservations_of_agrees agrees program otherProgram (by rw [image]) places

section Programs

variable {options : CompileOptions} {source : Bytes} {plain : Output} {machine : MachineOptions}
variable {loaded : Loaded}

/-- Options that fold and encode alike give code for the same tree. -/
theorem load_other (lawful : options.charsets.Lawful) {other : CompileOptions}
    (fold : other.fold = options.fold) (charsets : other.charsets = options.charsets)
    (encoding : other.encoding = options.encoding)
    (compiled : compile options source = .ok plain)
    (load : loadListing plain.assembly.bytes machine = .ok loaded) :
    ∃ output otherLoaded, compile other source = .ok output ∧ output.folded = plain.folded ∧
      output.variableNames = plain.variableNames ∧
      loadListing output.assembly.bytes machine = .ok otherLoaded ∧
      otherLoaded.image = { loaded.image with program := otherLoaded.image.program } ∧
      otherLoaded.machine.toCore = loaded.machine.toCore := by
  obtain ⟨output, otherLoaded, compiledAgain, _, target, names, later⟩ :=
    load_again lawful charsets encoding compiled load
  obtain ⟨_, folded, _⟩ := compile_cases compiled
  refine ⟨output, otherLoaded, compiledAgain, ?_, names, later⟩
  rw [target, folded, CompileOptions.target, CompileOptions.target, fold]

theorem in_step_compiled (lawful : options.charsets.Lawful)
    (compiled : compile options source = .ok plain)
    (load : loadListing plain.assembly.bytes machine = .ok loaded)
    (standard : machine.routines = standardRoutines)
    (room : loaded.image.dataEnd + 4 * max 2 plain.folded.stackDepth ≤ loaded.image.stackTop) :
    InStep loaded.image.dataEnd loaded.machine.top 0
      (loaded.image.performAll (mainLines plain.variableNames
        (plain.folded.code options.division)) loaded.machine.toCore)
      (loaded.image.performAll (mainLines plain.variableNames
        (Line.mergePairs (plain.folded.code options.division))) loaded.machine.toCore) := by
  obtain ⟨_, prepared⟩ := prepared_compiled lawful compiled (.inl rfl) load standard room
  obtain ⟨_, _, _, top, _⟩ := loaded_program (load_compiled lawful compiled (.inl rfl) load)
  apply in_step_main prepared options.division (compiled_arithmetic compiled)
  rw [top]
  omega

/-- The peephole pass cannot be observed. -/
theorem peephole_unobservable (lawful : options.charsets.Lawful)
    (off : options.peephole = false)
    (compiled : compile options source = .ok plain)
    (load : loadListing plain.assembly.bytes machine = .ok loaded)
    (standard : machine.routines = standardRoutines)
    (room : loaded.image.dataEnd + 4 * max 2 plain.folded.stackDepth ≤ loaded.image.stackTop)
    (limit : loaded.image.program.instructions.size ≤ loaded.image.stepLimit) :
    ∃ merged mergedLoaded, compile { options with peephole := true } source = .ok merged ∧
      loadListing merged.assembly.bytes machine = .ok mergedLoaded ∧
      SameEnd loaded mergedLoaded := by
  let on : CompileOptions := { options with peephole := true }
  have lawfulOn : on.charsets.Lawful := lawful
  obtain ⟨merged, mergedLoaded, compiledAgain, sameTree, sameNames, loadAgain, image, core⟩ :=
    @load_other options source plain machine loaded lawful on rfl rfl rfl compiled load
  refine ⟨merged, mergedLoaded, compiledAgain, loadAgain, ?_⟩
  have plainTree : treeLines options.toCodegenOptions plain.folded =
      plain.folded.code options.division := by
    rw [treeLines, off]
    rfl
  have mergedTree : treeLines on.toCodegenOptions merged.folded =
      Line.mergePairs (plain.folded.code options.division) := by
    rw [treeLines, sameTree]
    rfl
  have symbols : mergedLoaded.image.symbols = loaded.image.symbols := by rw [image]
  have routines : mergedLoaded.image.routines = loaded.image.routines := by rw [image]
  have steps : mergedLoaded.image.stepLimit = loaded.image.stepLimit := by rw [image]
  have mergedLimit : mergedLoaded.image.program.instructions.size ≤
      mergedLoaded.image.stepLimit := by
    have shorter := Line.merge_pairs_length_le (plain.folded.code options.division)
    rw [compiled_size lawful compiled (.inl rfl) load, plainTree] at limit
    rw [compiled_size lawfulOn compiledAgain (.inl rfl) loadAgain, mergedTree, sameNames, steps]
    simp only [mainLines, List.length_append] at limit ⊢
    omega
  have plainRuns := runs_compiled lawful compiled (.inl rfl) load limit
  have mergedRuns := runs_compiled lawfulOn compiledAgain (.inl rfl) loadAgain mergedLimit
  -- Both images have the same data, so one of them can run both programs.
  rw [plainTree] at plainRuns
  rw [mergedTree, sameNames, Image.perform_all_congr symbols routines, core] at mergedRuns
  obtain ⟨_, prepared⟩ := prepared_compiled lawful compiled (.inl rfl) load standard room
  obtain ⟨program, _, top, _⟩ := loaded_program (load_compiled lawful compiled (.inl rfl) load)
  obtain ⟨otherProgram, _⟩ :=
    loaded_program (load_compiled lawfulOn compiledAgain (.inl rfl) loadAgain)
  rw [sameNames] at otherProgram
  exact same_end_of_in_step plainRuns mergedRuns
    (in_step_compiled lawful compiled load standard room) program otherProgram image
    (by rw [top]; exact stack_top_bound machine) prepared.places

/-- A run that stops at a division by zero, without a sign and with pairs that are merged. -/
theorem zero_divisor_unobservable :
    ∃ plain loaded merged mergedLoaded,
      compile { peephole := false, division := .zero } (utf8 "a/b*2") = .ok plain ∧
      loadListing plain.assembly.bytes { input := utf8 "5 0" } = .ok loaded ∧
      compile { peephole := true, division := .zero } (utf8 "a/b*2") = .ok merged ∧
      loadListing merged.assembly.bytes { input := utf8 "5 0" } = .ok mergedLoaded ∧
      SameEnd loaded mergedLoaded := by
  obtain ⟨plain, loaded, compiled, load, enough, _⟩ := @loaded_of_check
    { peephole := false, division := .zero } (utf8 "a/b*2") { input := utf8 "5 0" }
    (fun _ => true) (CharsetRegistry.resolve_canonical .utf8) (by decide +kernel)
  obtain ⟨merged, mergedLoaded, compiledAgain, loadAgain, same⟩ := peephole_unobservable
    CharsetRegistry.common_lawful rfl compiled load rfl enough.room enough.limit
  exact ⟨plain, loaded, merged, mergedLoaded, compiled, load, compiledAgain, loadAgain, same⟩

end Programs

end ExprCompiler
