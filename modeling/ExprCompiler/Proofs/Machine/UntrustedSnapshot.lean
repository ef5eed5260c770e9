import ExprCompiler.Proofs.Machine.Resumption

/-!
Untrusted snapshots. Whatever an archive holds and however its state is decoded, a machine that it
is restored on stands within its program. The indices to return to are taken over unchecked, though:
they are those of the archive, and the machine stays within its program exactly if all of them lie
there. A return to any other index ends the program without an error.
-/

namespace ExprCompiler

/-- An index of an instruction, or the one right behind the last. -/
def Image.InProgram (image : Image) (index : Int) : Prop :=
  0 ≤ index ∧ index ≤ image.program.instructions.size

instance (image : Image) (index : Int) : Decidable (image.InProgram index) :=
  inferInstanceAs (Decidable (_ ∧ _))

structure Machine.Controlled (allowed : Int → Prop) (machine : Machine) : Prop where
  ip : allowed machine.ip
  calls : ∀ index ∈ machine.callStack, allowed index

namespace Machine.Controlled

variable {image : Image} {machine : Machine} {allowed : Int → Prop}

theorem apply {action : Action} (fits : action.Within image.program.instructions.size)
    (inProgram : ∀ index, image.InProgram index → allowed index)
    (controlled : machine.Controlled allowed) : (action.apply machine).1.Controlled allowed := by
  cases action with
  | enter target =>
      refine ⟨inProgram target ⟨Int.natCast_nonneg _, Int.ofNat_le.mpr fits⟩, ?_⟩
      exact List.forall_mem_cons.mpr ⟨controlled.ip, controlled.calls⟩
  | leave =>
      rcases machine.leave_cases with ⟨index, outer, frames, left⟩ | ⟨_, left⟩
      · have calls := controlled.calls
        rw [frames, List.forall_mem_cons] at calls
        simp only [Action.apply, left]
        exact ⟨calls.1, calls.2⟩
      · simp only [Action.apply, left]
        exact ⟨controlled.ip, controlled.calls⟩
  | work task => exact ⟨controlled.ip, controlled.calls⟩

theorem step (closed : image.Closed) (inProgram : ∀ index, image.InProgram index → allowed index)
    (controlled : machine.Controlled allowed) : (machine.step image).1.Controlled allowed := by
  apply step_keeps _ closed controlled
  · exact ⟨controlled.ip, controlled.calls⟩
  · intro action fits above inside _
    apply Controlled.apply fits inProgram
    refine ⟨inProgram _ ⟨?_, inside⟩, controlled.calls⟩
    exact Int.le_trans above (Int.le_of_lt (Int.lt_succ _))

theorem after (closed : image.Closed) (inProgram : ∀ index, image.InProgram index → allowed index)
    (controlled : machine.Controlled allowed) (count : Nat) :
    (machine.after image count).Controlled allowed := by
  induction count with
  | zero => exact controlled
  | succ count induction => exact induction.step closed inProgram

end Machine.Controlled

section Restore

variable {image : Image} {machine restored : Machine} {saved : Snapshot} {archive : Archive}
  {codec : SnapshotCodec}

/-- The pointer of a restored machine was checked, the call stack is that of the snapshot. -/
theorem restored_control (restore : machine.restore image saved = .ok restored) :
    image.InProgram restored.ip ∧ restored.callStack = (saved.callStack.getD []).reverse := by
  have frames := Machine.restored_frames saved.callStack
  unfold Machine.restore at restore
  split at restore
  · cases restore
  · split at restore
    · cases restore
    · split at restore
      · cases restore
      · rename_i inside
        rw [Bool.or_eq_true, decide_eq_true_eq, decide_eq_true_eq, not_or] at inside
        split at restore
        · cases restore
        · split at restore <;> cases restore
          exact ⟨⟨Int.not_lt.mp inside.1, Int.not_lt.mp inside.2⟩, frames⟩

theorem restore_archive_cases (restore : machine.restoreArchive codec image archive = .ok restored) :
    ∃ saved, Snapshot.ofArchive codec archive = .ok saved ∧
      machine.restore image saved = .ok restored := by
  unfold Machine.restoreArchive at restore
  split at restore
  · cases restore
  · rename_i saved read
    exact ⟨saved, read, restore⟩

/-- Any archive that a machine is restored from leaves it within its program. From there on, its
control data is of the program or stands on the call stack of the archive. It stays within the
program in all states to come exactly if all of that call stack lies there. -/
theorem restored_machine_controlled {text : Bytes} {memorySize stepLimit : Int} {input : Bytes}
    {loaded : Loaded}
    (load : loadListing text { memorySize, stepLimit, input } = .ok loaded)
    (restore : machine.restoreArchive codec loaded.image archive = .ok restored) :
    ∃ saved, Snapshot.ofArchive codec archive = .ok saved ∧ loaded.image.InProgram restored.ip ∧
      (∀ count, (restored.after loaded.image count).Controlled fun index =>
        loaded.image.InProgram index ∨ index ∈ saved.callStack.getD []) ∧
      ((∀ count, (restored.after loaded.image count).Controlled loaded.image.InProgram) ↔
        ∀ index ∈ saved.callStack.getD [], loaded.image.InProgram index) := by
  have closed := (load_sound load).closed rfl
  obtain ⟨saved, read, restore⟩ := restore_archive_cases restore
  obtain ⟨inside, frames⟩ := restored_control restore
  have calls (index : Int) : index ∈ restored.callStack ↔ index ∈ saved.callStack.getD [] := by
    rw [frames, List.mem_reverse]
  refine ⟨saved, read, inside, ?_, ?_, ?_⟩
  · intro count
    apply Machine.Controlled.after closed fun index => Or.inl
    exact ⟨.inl inside, fun index member => .inr ((calls index).mp member)⟩
  · intro always index member
    exact (always 0).calls index ((calls index).mpr member)
  · intro allInside count
    apply Machine.Controlled.after closed fun index => id
    exact ⟨inside, fun index member => allInside index ((calls index).mp member)⟩

end Restore

def returningListing : Bytes := utf8 "section .text\nmain:\n ret\n"

/-- An archive with a state before the first instruction that has a call stack of its own. -/
def archiveWith (calls : Bytes) : Archive :=
  [(Snapshot.stateEntry, utf8 "\x7b\"ip\": 0, \"memory_size\": 8, \"call_stack\": " ++ calls ++
      utf8 "\x7d"),
    (Snapshot.memoryEntry, List.replicate 8 0)]

theorem restored_of_check {calls : Bytes} {holds : Image → Machine → Bool}
    (checked : (loadListing returningListing { memorySize := 8 }).toOption.any (fun loaded =>
      (loaded.machine.restoreArchive .json loaded.image (archiveWith calls)).toOption.any
        (holds loaded.image)) = true) :
    ∃ loaded restored, loadListing returningListing { memorySize := 8 } = .ok loaded ∧
      loaded.machine.restoreArchive .json loaded.image (archiveWith calls) = .ok restored ∧
      holds loaded.image restored = true := by
  obtain ⟨loaded, load, checked⟩ := listing_of_check checked
  cases restore : loaded.machine.restoreArchive .json loaded.image (archiveWith calls) with
  | error problem =>
      rw [restore] at checked
      cases checked
  | ok restored =>
      rw [restore] at checked
      exact ⟨loaded, restored, load, restore, checked⟩

theorem return_to_end_restored :
    ∃ loaded restored, loadListing returningListing { memorySize := 8 } = .ok loaded ∧
      loaded.machine.restoreArchive .json loaded.image (archiveWith (utf8 "[1]")) = .ok restored ∧
      restored.callStack = [1] ∧
      ∀ count, (restored.after loaded.image count).Controlled loaded.image.InProgram := by
  obtain ⟨loaded, restored, load, restore, checked⟩ := @restored_of_check (utf8 "[1]")
    (fun image restored => decide (restored.callStack = [1] ∧ image.InProgram 1))
    (by decide +kernel)
  obtain ⟨calls, inside⟩ := of_decide_eq_true checked
  obtain ⟨saved, read, _, _, controlled⟩ := restored_machine_controlled load restore
  have known : (Snapshot.ofArchive .json (archiveWith (utf8 "[1]"))).toOption.any
      (fun saved => decide (saved.callStack = some [1])) = true := by decide +kernel
  rw [read] at known
  refine ⟨loaded, restored, load, restore, calls, controlled.mpr ?_⟩
  rw [of_decide_eq_true known]
  exact List.forall_mem_singleton.mpr inside

/-- A snapshot that returns to the index -5 is restored as well. The return goes there, and the next
step ends the program, both without an error. -/
theorem stray_return_accepted :
    ∃ loaded restored, loadListing returningListing { memorySize := 8 } = .ok loaded ∧
      loaded.machine.restoreArchive .json loaded.image (archiveWith (utf8 "[-5]")) = .ok restored ∧
      restored.callStack = [-5] ∧ ¬loaded.image.InProgram (-5) ∧
      (restored.step loaded.image).2 = none ∧ (restored.step loaded.image).1.ip = -5 ∧
      ((restored.after loaded.image 1).step loaded.image).2 = none ∧
      (restored.after loaded.image 2).halted = true := by
  obtain ⟨loaded, restored, load, restore, checked⟩ := @restored_of_check (utf8 "[-5]")
    (fun image restored => decide (restored.callStack = [-5] ∧ ¬image.InProgram (-5) ∧
      (restored.step image).2 = none ∧ (restored.step image).1.ip = -5 ∧
      ((restored.after image 1).step image).2 = none ∧ (restored.after image 2).halted = true))
    (by decide +kernel)
  exact ⟨loaded, restored, load, restore, of_decide_eq_true checked⟩

end ExprCompiler
