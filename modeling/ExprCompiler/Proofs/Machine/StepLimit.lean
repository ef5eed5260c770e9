import ExprCompiler.Proofs.Machine.Faults
import ExprCompiler.Proofs.Machine.Invariant
import ExprCompiler.Proofs.Machine.Straight

/-!
The step limit. Instructions do not look at it: a step under a larger limit is the same step, unless
the smaller limit forbids it, and a step that is forbidden changes nothing. So every run ends, a run
that does not meet its limit is the run under any larger one, and a run that meets it can be gone on
with as if it had not been broken off.
-/

namespace ExprCompiler

def Image.withLimit (image : Image) (limit : Nat) : Image := { image with stepLimit := limit }

namespace Machine

variable {image : Image} {machine after stopped : Machine} {error : RunError} {limit : Nat}

theorem execute_with_limit (image : Image) (limit : Nat) (instruction : Instruction)
    (machine : Machine) :
    machine.execute (image.withLimit limit) instruction = machine.execute image instruction := rfl

/-- A step is forbidden by the limit, or it is the same under a larger one. -/
theorem step_with_limit (machine : Machine) (larger : image.stepLimit ≤ limit) :
    machine.step image = (machine, some ⟨none, .stepLimit image.stepLimit⟩) ∨
      machine.step (image.withLimit limit) = machine.step image := by
  have fetch : (image.withLimit limit).fetch? machine.ip = image.fetch? machine.ip := rfl
  unfold step
  rw [fetch]
  split
  · exact .inr rfl
  · cases image.fetch? machine.ip with
    | none => exact .inr rfl
    | some instruction =>
        by_cases limited : (image.stepLimit : Int) ≤ machine.steps
        · exact .inl (if_pos limited)
        · have unlimited : ¬((image.withLimit limit).stepLimit : Int) ≤ machine.steps := by
            simp only [Image.withLimit]
            omega
          simp only [if_neg limited, if_neg unlimited, execute_with_limit]
          exact .inr trivial

theorem quiet_step_with_limit (step : machine.step image = (after, none))
    (larger : image.stepLimit ≤ limit) :
    machine.step (image.withLimit limit) = (after, none) := by
  rcases machine.step_with_limit larger with forbidden | same
  · rw [step] at forbidden
    cases forbidden
  · exact same.trans step

theorem run_with_limit (machine : Machine) (larger : image.stepLimit ≤ limit)
    (unmet : ∀ error, (machine.run image).2 = some error → error.fault.kind ≠ .stepLimit) :
    machine.run (image.withLimit limit) = machine.run image := by
  fun_induction Machine.run image machine with
  | case1 machine running after stepped _ induction =>
      rw [run_of_step running (quiet_step_with_limit stepped larger)]
      exact induction unmet
  | case2 machine running after error stepped =>
      rcases machine.step_with_limit larger with forbidden | same
      · rw [stepped] at forbidden
        cases forbidden
        exact absurd rfl (unmet _ rfl)
      · exact run_of_failed_step running (same.trans stepped)
  | case3 machine stopped =>
      rw [Bool.not_eq_false] at stopped
      exact run_of_halted stopped

/-- A step that does not fail halts the machine or is counted. -/
theorem step_counted (running : machine.halted = false)
    (step : machine.step image = (after, none)) :
    after.halted = true ∨ after.steps = machine.steps + 1 ∧ machine.steps < image.stepLimit := by
  unfold Machine.step at step
  rw [if_neg (by rw [running]; decide)] at step
  split at step
  · cases step
    exact .inl rfl
  · rename_i instruction _
    split at step
    · cases step
    · rename_i unlimited
      have counted := steps_execute image instruction machine.advance
      split at step
      · rename_i executed
        cases step
        rw [executed] at counted
        exact .inr ⟨counted, Int.not_le.mp unlimited⟩
      · cases step

/-- What a run that meets the limit has come to: it has taken all steps that the limit allows, the
next one changes nothing, and under a larger limit it goes on as from its start. -/
structure Pauses (image : Image) (machine stopped : Machine) (error : RunError) : Prop where
  isLimit : error = ⟨none, .stepLimit image.stepLimit⟩
  full : stopped.steps = image.stepLimit
  forbidden : stopped.step image = (stopped, some error)
  reached : ∃ count : Nat, stopped.steps = machine.steps + count ∧
    machine.stepMany image count = (stopped, none)
  resumes : ∀ limit, image.stepLimit ≤ limit →
    stopped.run (image.withLimit limit) = machine.run (image.withLimit limit)

theorem run_pauses (standard : image.routines = standardRoutines)
    (within : machine.steps ≤ image.stepLimit)
    (run : machine.run image = (stopped, some error)) (limited : error.fault.kind = .stepLimit) :
    Pauses image machine stopped error := by
  fun_induction Machine.run image machine with
  | case1 machine running after stepped _ induction =>
      rcases step_counted running stepped with halted | ⟨counted, below⟩
      · rw [run_of_halted halted] at run
        cases run
      · have later := induction (by omega) run
        obtain ⟨count, steps, reached⟩ := later.reached
        refine ⟨later.isLimit, later.full, later.forbidden, ⟨count + 1, by omega, ?_⟩, ?_⟩
        · rw [stepMany, stepped]
          exact reached
        · intro limit larger
          rw [run_of_step running (quiet_step_with_limit stepped larger)]
          exact later.resumes limit larger
  | case2 machine running after problem stepped =>
      cases run
      rcases step_failed standard stepped with ⟨rfl, rfl, full⟩ | ⟨instruction, _, _, blamed⟩
      · exact ⟨rfl, Int.le_antisymm within full, stepped, ⟨0, (Int.add_zero _).symm, rfl⟩,
          fun _ _ => rfl⟩
      · -- No instruction fails of the limit.
        exact absurd limited blamed.no_limit
  | case3 machine stopped => cases run

theorem step_many_remaining (count : Nat) (enough : machine.remaining image ≤ count) :
    machine.stepMany image count = machine.run image := by
  fun_induction Machine.run image machine generalizing count with
  | case1 machine running after stepped fewer induction =>
      cases count with
      | zero => omega
      | succ count =>
          rw [stepMany, stepped]
          exact induction count (by omega)
  | case2 machine running after error stepped =>
      cases count with
      | zero => simp [remaining, running] at enough
      | succ count => rw [stepMany, stepped]
  | case3 machine stopped =>
      rw [Bool.not_eq_false] at stopped
      clear enough
      induction count with
      | zero => rfl
      | succ count induction =>
          have idle : machine.step image = (machine, none) := if_pos stopped
          rw [stepMany, idle]
          exact induction

theorem run_ends (machine : Machine) (quiet : (machine.run image).2 = none) :
    (machine.run image).1.halted = true := by
  fun_induction Machine.run image machine with
  | case1 machine running after stepped _ induction => exact induction quiet
  | case2 machine running after error stepped => cases quiet
  | case3 machine stopped => simpa using stopped

end Machine

theorem load_other_limit {program : Program} {options : MachineOptions} {loaded : Loaded}
    (load : program.load options = .ok loaded) (stepLimit : Int) :
    program.load { options with stepLimit } =
      .ok ⟨loaded.image.withLimit ({ options with stepLimit } : MachineOptions).limit,
        loaded.machine⟩ := by
  unfold Program.load at load ⊢
  split at load
  · cases load
  · rename_i placed placing
    cases load
    have same : layout (({ options with stepLimit } : MachineOptions).stackTop / 2) program =
        .ok placed := placing
    simp only [same]
    rfl

theorem limit_of_positive {options : MachineOptions} (positive : 0 < options.stepLimit) :
    (options.limit : Int) = options.stepLimit := by
  rw [MachineOptions.limit, if_neg (Int.not_le.mpr positive),
    Int.toNat_of_nonneg (Int.le_of_lt positive)]

/-- Every run ends: after one step more than the limit allows, it has halted or failed. A run that
does not meet the limit is the run under any larger limit. One that meets it has taken all the steps
it may, stands where the step that was forbidden left everything as it was, and goes on from there
under a larger limit to the end of the run under that limit. -/
theorem limit_pauses_run {program : Program} {memorySize small large : Int} {input : Bytes}
    {loaded : Loaded} (positive : 0 < small) (larger : small ≤ large)
    (load : program.load { memorySize, stepLimit := small, input } = .ok loaded) :
    ∃ other, program.load { memorySize, stepLimit := large, input } = .ok other ∧
      other.machine = loaded.machine ∧
      loaded.machine.stepMany loaded.image (small.toNat + 1) = loaded.machine.run loaded.image ∧
      ((loaded.machine.run loaded.image).2 = none →
        (loaded.machine.run loaded.image).1.halted = true) ∧
      ((∀ error, (loaded.machine.run loaded.image).2 = some error →
          error.fault.kind ≠ .stepLimit) →
        other.machine.run other.image = loaded.machine.run loaded.image) ∧
      ∀ stopped error, loaded.machine.run loaded.image = (stopped, some error) →
        error.fault.kind = .stepLimit →
        error = ⟨none, .stepLimit small.toNat⟩ ∧
        stopped.steps = small ∧
        loaded.machine.stepMany loaded.image small.toNat = (stopped, none) ∧
        stopped.step loaded.image = (stopped, some error) ∧
        stopped.run other.image = other.machine.run other.image := by
  have smallLimit : (({ memorySize, stepLimit := small, input } : MachineOptions).limit : Int) =
      small := limit_of_positive positive
  have largeLimit : (({ memorySize, stepLimit := large, input } : MachineOptions).limit : Int) =
      large := limit_of_positive (Int.lt_of_lt_of_le positive larger)
  obtain ⟨_, _, _, image, machine⟩ := load_cases load
  have limit : (loaded.image.stepLimit : Int) = small := by
    rw [image]
    exact smallLimit
  have standard : loaded.image.routines = standardRoutines := by rw [image]
  have start : loaded.machine.steps = 0 := by rw [machine]
  have more : loaded.image.stepLimit ≤
      ({ memorySize, stepLimit := large, input } : MachineOptions).limit := by omega
  refine ⟨_, load_other_limit load large, rfl, ?_, loaded.machine.run_ends, ?_, ?_⟩
  · apply Machine.step_many_remaining
    unfold Machine.remaining
    split <;> omega
  · exact loaded.machine.run_with_limit more
  · intro stopped error run limited
    have pauses := Machine.run_pauses standard (by omega) run limited
    obtain ⟨count, steps, reached⟩ := pauses.reached
    have full := pauses.full
    have allSteps : count = small.toNat := by omega
    have sameLimit : loaded.image.stepLimit = small.toNat := by omega
    exact ⟨sameLimit ▸ pauses.isLimit, full.trans limit, allSteps ▸ reached, pauses.forbidden,
      pauses.resumes _ more⟩

/-- Three steps put two words on a stack of eight bytes. The run pauses there and goes on with the
call, behind which a push fails, under the larger limit. -/
theorem endless_calls_paused :
    ∃ program loaded other stopped, readListing endlessListing = .ok program ∧
      program.load { memorySize := 8, stepLimit := 3, input := [] } = .ok loaded ∧
      program.load { memorySize := 8, stepLimit := 10, input := [] } = .ok other ∧
      loaded.machine.run loaded.image = (stopped, some ⟨none, .stepLimit 3⟩) ∧
      stopped.steps = 3 ∧ stopped.ip = 1 ∧
      stopped.run other.image = other.machine.run other.image := by
  obtain ⟨loaded, load, check⟩ := @listing_of_check endlessListing
    { memorySize := 8, stepLimit := 3, input := [] }
    (fun loaded =>
      let ended := loaded.machine.stepMany loaded.image 4
      decide (ended.2 = some ⟨none, .stepLimit 3⟩ ∧ ended.1.ip = 1))
    (by decide +kernel)
  obtain ⟨program, read, load⟩ := load_listing_cases load
  obtain ⟨other, otherLoad, -, ends, -, -, paused⟩ :=
    @limit_pauses_run program 8 3 10 [] loaded (by decide) (by decide) load
  have limited := of_decide_eq_true check
  rw [show (4 : Nat) = (3 : Int).toNat + 1 from rfl, ends] at limited
  have run : loaded.machine.run loaded.image =
      ((loaded.machine.run loaded.image).1, some ⟨none, .stepLimit 3⟩) :=
    Prod.ext rfl limited.1
  obtain ⟨-, steps, -, -, goesOn⟩ := paused _ _ run rfl
  exact ⟨program, loaded, other, _, read, load, otherLoad, run, steps, limited.2, goesOn⟩

end ExprCompiler
