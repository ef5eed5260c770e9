import ExprCompiler.Proofs.Assembly.Accepted
import ExprCompiler.Proofs.Machine.Faults
import ExprCompiler.Proofs.Machine.Loaded

/-!
Unresolved symbols. The names in an accepted listing all stand for something, so an instruction can
only fail of a name that it uses for what it does not stand for: the name of code or of a routine as
a number, or the name of data as a routine.
-/

namespace ExprCompiler

/-- The uses of a name for what it does not stand for. -/
inductive Program.Misuses (program : Program) (name : Bytes) : Instruction → Prop where
  | asValue {instruction : Instruction} {operand : Operand} (noCall : instruction.mnemonic ≠ .call)
      (member : operand ∈ instruction.operands) (refers : operand.symbol? = some name)
      (isCode : name ∈ program.labels.keys ∨ program.isImported name = true)
      (noData : name ∉ program.dataLabels) : Misuses program name instruction
  | asRoutine {instruction : Instruction} (call : instruction.mnemonic = .call)
      (only : instruction.operands = [.label name]) (isData : name ∈ program.dataLabels)
      (noCode : name ∉ program.labels.keys) (noImport : program.isImported name = false) :
      Misuses program name instruction

variable {program : Program} {image : Image} {machine stopped : Machine} {error : RunError}
  {name : Bytes} {options : MachineOptions} {loaded : Loaded}

theorem Program.Accepted.misused (accepted : program.Accepted) {instruction : Instruction}
    (member : instruction ∈ program.instructions) (same : image.program = program)
    (labels : image.symbols.map Prod.fst = program.dataLabels)
    (blamed : image.Blames instruction (.unresolvedSymbol name)) :
    program.Misuses name instruction := by
  cases blamed with
  | @operand operand _ noCall inOperands refers missing =>
      have noData : name ∉ program.dataLabels := by
        rw [← labels]
        exact not_key_of_find_none missing
      obtain ⟨_, _, stands⟩ := accepted.referenced instruction member operand inOperands name refers
      refine .asValue noCall inOperands refers ?_ noData
      rcases stands with isLabel | imported
      · rcases List.mem_append.mp isLabel with isCode | isData
        · exact .inl isCode
        · exact absurd isData noData
      · exact .inr imported
  | callee call only noCode noImport =>
      rw [same] at noCode noImport
      have absent : name ∉ program.labels.keys := not_key_of_find_none noCode
      have inOperands : Operand.label name ∈ instruction.operands := by simp [only]
      obtain ⟨_, _, stands⟩ := accepted.referenced instruction member _ inOperands name rfl
      refine .asRoutine call only ?_ absent noImport
      rcases stands with isLabel | imported
      · rcases List.mem_append.mp isLabel with isCode | isData
        · exact absurd isCode absent
        · exact isData
      · rw [noImport] at imported
        cases imported
  | other plain => exact absurd rfl plain.1

theorem fetched_member {index : Int} {instruction : Instruction}
    (fetched : image.fetch? index = some instruction) :
    instruction ∈ image.program.instructions := by
  unfold Image.fetch? at fetched
  split at fetched
  · cases fetched
  · exact Array.mem_of_getElem? fetched

theorem Machine.run_error (run : machine.run image = (stopped, some error)) :
    ∃ last : Machine, last.step image = (stopped, some error) := by
  fun_induction Machine.run image machine with
  | case1 machine running after stepped _ induction => exact induction run
  | case2 machine running after problem stepped =>
      cases run
      exact ⟨machine, stepped⟩
  | case3 machine halted => cases run

theorem step_misuses (accepted : program.Accepted) (load : program.load options = .ok loaded)
    (standard : options.routines = standardRoutines)
    (step : machine.step loaded.image = (stopped, some error))
    (unresolved : error.fault = .unresolvedSymbol name) :
    ∃ instruction ∈ program.instructions, error.instruction = some instruction ∧
      program.Misuses name instruction := by
  have labels := load_symbols load
  obtain ⟨_, _, _, image, _⟩ := load_cases load
  have same : loaded.image.program = program := by rw [image]
  have routines : loaded.image.routines = standardRoutines := by rw [image, standard]
  rcases step_failed routines step with ⟨_, rfl, _⟩ | ⟨instruction, fetched, isError, blamed⟩
  · cases unresolved
  · have member : instruction ∈ program.instructions := by
      rw [← same]
      exact fetched_member fetched
    rw [unresolved] at blamed
    exact ⟨instruction, member, isError, accepted.misused member same labels blamed⟩

/-- An accepted listing is linked: its names are distinct, its code labels lie within the code, its
operands refer to what it defines or imports, its reserved room is zero and its instructions are in
the order of their lines. Whatever state a machine is in that was loaded from it, an instruction
that fails of a name uses the name for what it does not stand for. -/
theorem accepted_listing_linked {text : Bytes} (read : readListing text = .ok program) :
    program.Accepted ∧
      ∀ memorySize stepLimit input loaded,
        program.load { memorySize, stepLimit, input } = .ok loaded →
        ∀ (machine : Machine) error name, error.fault = .unresolvedSymbol name →
          ((machine.step loaded.image).2 = some error ∨ (machine.run loaded.image).2 = some error) →
          ∃ instruction ∈ program.instructions, error.instruction = some instruction ∧
            program.Misuses name instruction := by
  have accepted := program_accepted read
  refine ⟨accepted, ?_⟩
  intro memorySize stepLimit input loaded load machine error name unresolved failed
  rcases failed with stepFailed | runFailed
  · exact step_misuses accepted load rfl (Prod.ext rfl stepFailed) unresolved
  · obtain ⟨last, step⟩ := Machine.run_error (Prod.ext rfl runFailed)
    exact step_misuses accepted load rfl step unresolved

/-- A datum that is called, and a code label that is moved into a register. -/
def misusedListing : Bytes :=
  utf8 "section .rdata\ntext: db 104, 0\nsection .text\nmain:\n call text\n mov eax, main\n"

/-- The run fails of the call, and behind it the machine fails of the move. -/
theorem called_text_misused :
    ∃ program loaded, readListing misusedListing = .ok program ∧ program.Accepted ∧
      program.load { memorySize := 65536, stepLimit := 10, input := [] } = .ok loaded ∧
      (loaded.machine.run loaded.image).2 =
        some ⟨some ⟨5, .call, [.label (utf8 "text")]⟩, .unresolvedSymbol (utf8 "text")⟩ ∧
      program.Misuses (utf8 "text") ⟨5, .call, [.label (utf8 "text")]⟩ ∧
      ((loaded.machine.after loaded.image 1).step loaded.image).2 =
        some ⟨some ⟨6, .mov, [.register .eax, .label (utf8 "main")]⟩,
          .unresolvedSymbol (utf8 "main")⟩ ∧
      program.Misuses (utf8 "main") ⟨6, .mov, [.register .eax, .label (utf8 "main")]⟩ := by
  obtain ⟨loaded, load, checked⟩ := @listing_of_check misusedListing
    { memorySize := 65536, stepLimit := 10, input := [] }
    (fun loaded =>
      !loaded.machine.halted &&
      decide ((loaded.machine.step loaded.image).2 =
        some ⟨some ⟨5, .call, [.label (utf8 "text")]⟩, .unresolvedSymbol (utf8 "text")⟩) &&
      decide (((loaded.machine.after loaded.image 1).step loaded.image).2 =
        some ⟨some ⟨6, .mov, [.register .eax, .label (utf8 "main")]⟩,
          .unresolvedSymbol (utf8 "main")⟩))
    (by decide +kernel)
  simp only [Bool.and_eq_true, Bool.not_eq_true', decide_eq_true_eq] at checked
  obtain ⟨⟨running, call⟩, move⟩ := checked
  obtain ⟨program, read, load⟩ := load_listing_cases load
  obtain ⟨accepted, misuse⟩ := accepted_listing_linked read
  have run := Machine.run_of_failed_step running (Prod.ext rfl call)
  have failed := congrArg Prod.snd run
  obtain ⟨first, _, isFirst, misusesText⟩ :=
    misuse 65536 10 [] loaded load loaded.machine _ (utf8 "text") rfl (.inr failed)
  obtain ⟨second, _, isSecond, misusesMain⟩ :=
    misuse 65536 10 [] loaded load (loaded.machine.after loaded.image 1) _ (utf8 "main") rfl
      (.inl move)
  cases isFirst
  cases isSecond
  exact ⟨program, loaded, read, accepted, load, failed, misusesText, move, misusesMain⟩

end ExprCompiler
