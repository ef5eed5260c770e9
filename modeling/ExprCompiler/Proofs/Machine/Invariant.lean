import ExprCompiler.Proofs.Machine.Loaded
import ExprCompiler.Proofs.Machine.Watched

/-!
What holds of a machine from the moment its listing is loaded, after any number of steps and
whatever errors they meet on the way.
-/

namespace ExprCompiler

variable {image : Image} {machine : Machine}

theorem Machine.step_of_halted (halted : machine.halted = true) :
    machine.step image = (machine, none) := if_pos halted

theorem Machine.after_add (count more : Nat) :
    machine.after image (count + more) = (machine.after image count).after image more := by
  induction more with
  | zero => rfl
  | succ more induction => exact congrArg (fun state => (state.step image).1) induction

theorem Machine.after_of_halted (halted : machine.halted = true) (count : Nat) :
    machine.after image count = machine := by
  induction count with
  | zero => rfl
  | succ count induction => rw [Machine.after, induction, Machine.step_of_halted halted]

/-- After any number of steps a machine has as much memory as it was loaded with, stands in its
program with all its calls, has not gone past the step limit and makes no access outside with the
next step. Once it has halted, it stays as it is. -/
theorem loaded_machine_invariant {text : Bytes} {memorySize stepLimit : Int} {input : Bytes}
    {loaded : Loaded}
    (load : loadListing text { memorySize, stepLimit, input } = .ok loaded) (count : Nat) :
    let machine := loaded.machine.after loaded.image count
    machine.memory.size = loaded.machine.memory.size ∧
      machine.Within loaded.image.program.instructions.size loaded.image.stepLimit ∧
      0 ≤ machine.steps ∧
      Watched.step loaded.image machine = some (machine.step loaded.image) ∧
      (machine.halted = true → ∀ more,
        loaded.machine.after loaded.image (count + more) = machine ∧
        ((loaded.machine.after loaded.image (count + more)).step loaded.image) =
          (machine, none)) := by
  intro machine
  have sound := load_sound load
  have closed := sound.closed rfl
  have within := sound.within.after closed count
  have counted : 0 ≤ machine.steps := Int.le_trans (Int.natCast_nonneg _) within.depth
  refine ⟨Machine.size_after closed _ count, within, counted,
    Watched.step_eq closed.routines machine, ?_⟩
  intro halted more
  have stays : loaded.machine.after loaded.image (count + more) = machine := by
    rw [Machine.after_add]
    exact Machine.after_of_halted halted more
  rw [stays]
  exact ⟨rfl, Machine.step_of_halted halted⟩

/-- A program that calls itself without end and pushes a word each time. -/
def endlessListing : Bytes := utf8 "section .text\nmain:\n push 7\n call main\n"

/-- In eight bytes of memory the third push fails, and the machine goes on behind it. -/
theorem endless_calls_stay_inside :
    ∃ loaded, loadListing endlessListing { memorySize := 8, stepLimit := 10, input := [] } =
        .ok loaded ∧
      (loaded.machine.after loaded.image 6).callStack = [2, 2, 2] ∧
      (loaded.machine.after loaded.image 6).Within loaded.image.program.instructions.size
        loaded.image.stepLimit ∧
      Watched.step loaded.image (loaded.machine.after loaded.image 6) =
        some ((loaded.machine.after loaded.image 6).step loaded.image) := by
  obtain ⟨loaded, load, stack⟩ := @listing_of_check endlessListing
    { memorySize := 8, stepLimit := 10, input := [] }
    (fun loaded => decide ((loaded.machine.after loaded.image 6).callStack = [2, 2, 2]))
    (by decide +kernel)
  obtain ⟨_, within, _, watched, _⟩ := loaded_machine_invariant load 6
  exact ⟨loaded, load, of_decide_eq_true stack, within, watched⟩

end ExprCompiler
