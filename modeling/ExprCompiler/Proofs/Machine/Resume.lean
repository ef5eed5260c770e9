import ExprCompiler.Proofs.Machine.Reachable

/-!
Resuming. Two machines in the same state that read the same input run alike, whatever was written
before: they fail alike, end in the same state and write the same further output.
-/

namespace ExprCompiler.Machine

/-- Everything of a state but input and output. An empty call stack is the same as none. -/
structure SameState (first second : Machine) : Prop where
  registers : first.registers = second.registers
  memory : first.memory = second.memory
  ip : first.ip = second.ip
  halted : first.halted = second.halted
  steps : first.steps = second.steps
  callStack : first.callStack = second.callStack

/-- The first machine is the second one with some texts written before. -/
structure Resumes (earlier : List Bytes) (first second : Machine) : Prop
    extends SameState first second where
  unread : first.unread = second.unread
  written : first.written = second.written ++ earlier

variable {image : Image} {first second : Machine} {earlier : List Bytes}

theorem Resumes.core (same : first.Resumes earlier second) :
    first.toCore = second.toCore.behind earlier := by
  obtain ⟨⟨registers, memory, unread, written⟩, _, _, _, _⟩ := first
  simp only [Core.behind, Core.mk.injEq]
  exact ⟨same.registers, same.memory, same.unread, same.written⟩

theorem Resumes.advance (same : first.Resumes earlier second) :
    first.advance.Resumes earlier second.advance where
  registers := same.registers
  memory := same.memory
  ip := congrArg (· + 1) same.ip
  halted := same.halted
  steps := congrArg (· + 1) same.steps
  callStack := same.callStack
  unread := same.unread
  written := same.written

theorem Resumes.apply {action : Action} {length : Nat} (same : first.Resumes earlier second)
    (fits : action.Within length) :
    (action.apply first).1.Resumes earlier (action.apply second).1 ∧
      (action.apply first).2 = (action.apply second).2 := by
  cases action with
  | enter target =>
      have frames : first.ip :: first.callStack = second.ip :: second.callStack := by
        rw [same.ip, same.callStack]
      exact ⟨⟨⟨same.registers, same.memory, rfl, same.halted, same.steps, frames⟩, same.unread,
        same.written⟩, rfl⟩
  | leave =>
      refine ⟨?_, rfl⟩
      simp only [Action.apply]
      rcases first.leave_cases with ⟨index, outer, frames, left⟩ | ⟨frames, left⟩ <;>
        rcases second.leave_cases with ⟨index', outer', frames', left'⟩ | ⟨frames', left'⟩ <;>
          rw [same.callStack, frames'] at frames <;> cases frames <;> rw [left, left']
      · exact ⟨⟨same.registers, same.memory, rfl, same.halted, same.steps, rfl⟩, same.unread,
          same.written⟩
      · exact ⟨⟨same.registers, same.memory, same.ip, rfl, same.steps, same.callStack⟩, same.unread,
          same.written⟩
  | work task =>
      have effect : task first.toCore = (task second.toCore).behind earlier := by
        rw [same.core]
        exact fits.output second.toCore earlier
      simp only [Action.apply, onCore, effect]
      exact ⟨⟨⟨rfl, rfl, same.ip, same.halted, same.steps, same.callStack⟩, rfl, rfl⟩, rfl⟩

theorem Resumes.step (closed : image.Closed) (same : first.Resumes earlier second) :
    (first.step image).1.Resumes earlier (second.step image).1 ∧
      (first.step image).2 = (second.step image).2 := by
  unfold Machine.step
  rw [same.halted, same.ip, same.steps]
  split
  · exact ⟨same, rfl⟩
  · split
    · exact ⟨⟨⟨same.registers, same.memory, rfl, rfl, rfl, same.callStack⟩, same.unread,
        same.written⟩, rfl⟩
    · rename_i instruction _
      split
      · exact ⟨same, rfl⟩
      · obtain ⟨sameAfter, sameFault⟩ := same.advance.apply (closed.action instruction)
        rw [← Image.execute_action, ← Image.execute_action] at sameAfter sameFault
        generalize first.advance.execute image instruction = one at sameAfter sameFault ⊢
        generalize second.advance.execute image instruction = other at sameAfter sameFault ⊢
        obtain ⟨after, fault⟩ := one
        obtain ⟨otherAfter, otherFault⟩ := other
        cases sameFault
        cases fault with
        | none => exact ⟨sameAfter, rfl⟩
        | some fault => exact ⟨sameAfter, rfl⟩

theorem Resumes.run (closed : image.Closed) (same : first.Resumes earlier second) :
    (first.run image).1.Resumes earlier (second.run image).1 ∧
      (first.run image).2 = (second.run image).2 := by
  -- The induction follows the first machine; the second one takes the same step each time.
  fun_induction Machine.run image first generalizing second with
  | case1 first running after stepped _ induction =>
      obtain ⟨sameAfter, sameError⟩ := same.step closed
      rw [stepped] at sameAfter sameError
      have stepped' : second.step image = ((second.step image).1, none) := Prod.ext rfl sameError.symm
      rw [run_of_step (same.halted ▸ running) stepped']
      exact induction sameAfter
  | case2 first running after error stepped =>
      obtain ⟨sameAfter, sameError⟩ := same.step closed
      rw [stepped] at sameAfter sameError
      have stepped' : second.step image = ((second.step image).1, some error) :=
        Prod.ext rfl sameError.symm
      rw [run_of_failed_step (same.halted ▸ running) stepped']
      exact ⟨sameAfter, rfl⟩
  | case3 first stopped =>
      rw [same.halted, Bool.not_eq_false] at stopped
      rw [run_of_halted stopped]
      exact ⟨same, rfl⟩

theorem Resumes.output (same : first.Resumes earlier second) :
    first.output = earlier.reverse.flatten ++ second.output := by
  simp [Core.output, same.written]

end ExprCompiler.Machine
