import ExprCompiler.Proofs.Machine.Loaded
import ExprCompiler.Proofs.Machine.Snapshot

/-!
Resumption. Wherever a machine stands after some steps, failed ones included, its snapshot is
restored on any machine that loaded the same listing with memory and a step limit of the same size,
and the run goes on there as it would have without the break. This is so for every lawful codec.
-/

namespace ExprCompiler

variable {text input rest : Bytes} {memorySize stepLimit : Int} {options : MachineOptions}
  {loaded : Loaded}

theorem size_is_int64 (fits : IsInt64 options.memorySize) : IsInt64 options.size := by
  unfold MachineOptions.size defaultMemorySize
  unfold IsInt64 at fits ⊢
  split <;> omega

theorem limit_is_int64 (fits : IsInt64 options.stepLimit) : IsInt64 options.limit := by
  unfold MachineOptions.limit defaultStepLimit
  unfold IsInt64 at fits ⊢
  split <;> omega

theorem IsInt64.between {value bound : Int} (fits : IsInt64 bound) (above : 0 ≤ value)
    (below : value ≤ bound) : IsInt64 value := by
  unfold IsInt64 at fits ⊢
  omega

theorem snapshot_fits (sound : loaded.Sound text options)
    (standard : options.routines = standardRoutines) (textFits : IsInt64 text.length)
    (sizeFits : IsInt64 options.memorySize) (limitFits : IsInt64 options.stepLimit) (count : Nat) :
    ((loaded.machine.after loaded.image count).snapshot loaded.image).Fits := by
  have closed := sound.closed standard
  have within := sound.within.after closed count
  have lengthFits : IsInt64 loaded.image.program.instructions.size :=
    textFits.between (Int.natCast_nonneg _) (Int.ofNat_le.mpr sound.linked.count)
  refine ⟨Machine.registers_named _, ?_, ?_, ?_, ?_, sound.symbols⟩
  · exact lengthFits.between within.above within.below
  · have limit := limit_is_int64 limitFits
    rw [← sound.limit] at limit
    exact limit.between (Int.le_trans (Int.natCast_nonneg _) within.depth) within.steps
  · intro index member
    have inStack : index ∈ (loaded.machine.after loaded.image count).callStack := by
      revert member
      unfold Machine.snapshot Machine.callStack
      cases (loaded.machine.after loaded.image count).frames <;> simp
    have bounds := within.frames index inStack
    exact lengthFits.between (Int.le_trans (by decide) bounds.1) bounds.2
  · have size := size_is_int64 sizeFits
    rw [← sound.size, ← Machine.size_after closed loaded.machine count] at size
    exact size

theorem restore_file {codec : SnapshotCodec} {image : Image} {file : Bytes} {archive : Archive}
    (holds : Archive.ofFile? file = some archive) (machine : Machine) :
    machine.restoreFile codec image file = machine.restoreArchive codec image archive := by
  simp only [Machine.restoreFile, holds]

/-- The bounds are those of numbers and of lengths on a machine of 64 bits. A file counts as one of
the archive if the entries are read from it as they were written. -/
theorem resumed_run_agrees {codec : SnapshotCodec} (lawful : codec.Lawful)
    (load : loadListing text { memorySize, stepLimit, input } = .ok loaded)
    (textFits : IsInt64 text.length) (sizeFits : IsInt64 memorySize)
    (limitFits : IsInt64 stepLimit) {first : Machine} {count : Nat}
    (reached : loaded.machine.after loaded.image count = first) (rest : Bytes) :
    ∃ fresh restored, loadListing text { memorySize, stepLimit, input := rest } = .ok fresh ∧
      fresh.machine.restoreArchive codec fresh.image
        ((first.snapshot loaded.image).toArchive codec) = .ok restored ∧
      (∀ file, Archive.ofFile? file = some ((first.snapshot loaded.image).toArchive codec) →
        fresh.machine.restoreFile codec fresh.image file = .ok restored) ∧
      first.SameState restored ∧ restored.unread = rest ∧ restored.output = [] ∧
      (rest = first.unread →
        (restored.run fresh.image).2 = (first.run loaded.image).2 ∧
        (first.run loaded.image).1.SameState (restored.run fresh.image).1 ∧
        (first.run loaded.image).1.unread = (restored.run fresh.image).1.unread ∧
        (first.run loaded.image).1.output = first.output ++ (restored.run fresh.image).1.output) := by
  have sound := load_sound load
  have closed := sound.closed rfl
  have within := sound.within.after closed count
  have size := Machine.size_after closed loaded.machine count
  have fits := snapshot_fits sound rfl textFits sizeFits limitFits count
  rw [reached] at within size fits
  -- Input has no part in loading, so the second machine is the first one as it was at its start.
  let fresh : Machine := { loaded.machine with unread := rest }
  have unwritten : (first.movedTo fresh).written = [] := sound.unwritten
  have restore : fresh.restoreArchive codec loaded.image
      ((first.snapshot loaded.image).toArchive codec) = .ok (first.movedTo fresh) := by
    rw [Machine.restore_to_archive lawful fits]
    exact Machine.restore_snapshot within.above within.below size sound.symbols.distinct
  refine ⟨⟨loaded.image, fresh⟩, first.movedTo fresh, load_other_input load rest, restore, ?_,
    first.same_state_moved fresh, rfl, ?_, ?_⟩
  · intro file holds
    rw [restore_file holds]
    exact restore
  · rw [Core.output, unwritten]
    rfl
  · intro same
    -- From here on, what was written before the break is all that sets the two apart.
    have written : first.written = (first.movedTo fresh).written ++ first.written := by
      rw [unwritten, List.nil_append]
    have resumes : first.Resumes first.written (first.movedTo fresh) :=
      ⟨first.same_state_moved fresh, same.symm, written⟩
    obtain ⟨after, error⟩ := resumes.run closed
    exact ⟨error.symm, after.toSameState, after.unread, after.output⟩

def callingListing : Bytes :=
  utf8 "section .text\nmain:\n call sub\n ret\nsub:\n mov eax, 7\n ret\nsection .bss\ncell: resd 1\n"

/-- A program that is broken off within a call goes on there. -/
theorem broken_call_resumed :
    ∃ loaded first fresh restored,
      loadListing callingListing { memorySize := 8208, stepLimit := 10, input := utf8 "5" } =
        .ok loaded ∧
      loaded.machine.after loaded.image 2 = first ∧ first.callStack = [1] ∧
      loadListing callingListing { memorySize := 8208, stepLimit := 10, input := first.unread } =
        .ok fresh ∧
      fresh.machine.restoreArchive .json fresh.image
        ((first.snapshot loaded.image).toArchive .json) = .ok restored ∧
      restored.callStack = [1] ∧
      (first.run loaded.image).1.SameState (restored.run fresh.image).1 := by
  obtain ⟨loaded, load, inCall⟩ := @listing_of_check callingListing
    { memorySize := 8208, stepLimit := 10, input := utf8 "5" }
    (fun loaded => decide ((loaded.machine.after loaded.image 2).callStack = [1]))
    (by decide +kernel)
  have stack := of_decide_eq_true inCall
  have textFits : IsInt64 callingListing.length := by decide +kernel
  obtain ⟨fresh, restored, again, restore, _, same, _, _, agrees⟩ :=
    resumed_run_agrees SnapshotCodec.json_lawful load textFits (by decide) (by decide) rfl _
  exact ⟨loaded, _, fresh, restored, load, rfl, stack, again, restore, same.callStack ▸ stack,
    (agrees rfl).2.1⟩

end ExprCompiler
