import ExprCompiler.Machine.Load
import ExprCompiler.Proofs.Machine.Blind

/-!
Reachable states. Whatever instructions a machine meets, and however many of them fail, its
instruction pointer stays within the program or right behind it, calls return to where they were
made, and the step limit holds.
-/

namespace ExprCompiler

/-- What an instruction does to a machine, whatever the state of the machine is. -/
inductive Action where
  | enter (target : Nat)
  | leave
  | work (task : Core → Effect)

def Action.apply (machine : Machine) : Action → Machine × Option Fault
  | enter target => (machine.enter target, none)
  | leave => (machine.leave, none)
  | work task => machine.onCore task

namespace Image

variable {image : Image}

def callAction (image : Image) (name : Bytes) : Action :=
  match image.program.labels.find? name with
  | some target => .enter target
  | none =>
      .work fun core =>
        if image.program.isImported name then image.callRoutine name core
        else ⟨core, some (.unresolvedSymbol name)⟩

def action (image : Image) (instruction : Instruction) : Action :=
  match instruction.mnemonic, instruction.operands with
  | .call, [.label name] => image.callAction name
  | .call, [operand] => .work fun core => ⟨core, some (.callTarget operand)⟩
  | .ret, _ => .leave
  | _, _ => .work (image.compute instruction)

theorem call_action (name : Bytes) (machine : Machine) :
    machine.call image name = (image.callAction name).apply machine := by
  unfold Machine.call callAction
  cases image.program.labels.find? name with
  | some target => rfl
  | none =>
      dsimp only [Action.apply, Machine.onCore]
      split <;> rfl

theorem execute_action (instruction : Instruction) (machine : Machine) :
    machine.execute image instruction = (image.action instruction).apply machine := by
  obtain ⟨line, mnemonic, operands⟩ := instruction
  cases mnemonic with
  | call =>
      match operands with
      | [] => rfl
      | [operand] =>
          cases operand with
          | label name => exact call_action name machine
          | register | immediate | memory => rfl
      | first :: _ :: _ => cases first <;> rfl
  | nop | mov | push | pop | add | sub | imul | neg | cdq | idiv | ret | other => rfl

/-- The standard routines, and code labels that stand for an instruction or for the end. -/
structure Closed (image : Image) : Prop where
  routines : image.routines = standardRoutines
  targets : ∀ name target, image.program.labels.find? name = some target →
    target ≤ image.program.instructions.size

end Image

def Action.Within (length : Nat) : Action → Prop
  | enter target => target ≤ length
  | leave => True
  | work task => Blind task

theorem Image.Closed.action {image : Image} (closed : image.Closed) (instruction : Instruction) :
    (image.action instruction).Within image.program.instructions.size := by
  unfold Image.action
  split
  · rename_i name _ _
    unfold Image.callAction
    split
    · rename_i target found
      exact closed.targets name target found
    · by_cases imported : image.program.isImported name = true
      · simp only [imported, if_true]
        exact blind_call_routine image closed.routines name
      · simp only [if_neg imported]
        exact Blind.nothing _
  · exact Blind.nothing _
  · trivial
  · exact image.blind_compute instruction

namespace Machine

def callStack (machine : Machine) : List Int := machine.frames.getD []

theorem leave_cases (machine : Machine) :
    (∃ index outer, machine.callStack = index :: outer ∧
      machine.leave = { machine with frames := some outer, ip := index }) ∨
    machine.callStack = [] ∧ machine.leave = { machine with halted := true } := by
  unfold leave callStack
  cases machine.frames with
  | none => exact .inr ⟨rfl, rfl⟩
  | some frames =>
      cases frames with
      | nil => exact .inr ⟨rfl, rfl⟩
      | cons index outer => exact .inl ⟨index, outer, rfl, rfl⟩

/-- A machine that stands in a program of a length, or right behind it. -/
structure Within (length limit : Nat) (machine : Machine) : Prop where
  above : 0 ≤ machine.ip
  below : machine.ip ≤ length
  frames : ∀ index ∈ machine.callStack, 1 ≤ index ∧ index ≤ length
  depth : machine.callStack.length ≤ machine.steps
  steps : machine.steps ≤ limit

variable {image : Image} {machine : Machine} {length limit : Nat}

theorem Within.apply {action : Action} (within : machine.Within length limit)
    (behind : 1 ≤ machine.ip) (deeper : machine.callStack.length < machine.steps)
    (fits : action.Within length) : (action.apply machine).1.Within length limit := by
  cases action with
  | enter target =>
      refine ⟨Int.natCast_nonneg _, Int.ofNat_le.mpr fits, ?_, ?_, within.steps⟩
      · intro index member
        rcases List.mem_cons.mp member with rfl | outer
        · -- The pointer stands behind the call already, maybe at the end of the program.
          exact ⟨behind, within.below⟩
        · exact within.frames index outer
      · exact deeper
  | leave =>
      rcases machine.leave_cases with ⟨index, outer, frames, left⟩ | ⟨_, left⟩
      · have member (other : Int) (inOuter : other ∈ outer) : other ∈ machine.callStack := by
          rw [frames]
          exact List.mem_cons_of_mem index inOuter
        have first := within.frames index (by simp [frames])
        have shorter := congrArg List.length frames
        rw [List.length_cons] at shorter
        simp only [Action.apply, left]
        refine ⟨?_, first.2, fun other inOuter => within.frames other (member other inOuter), ?_,
          within.steps⟩
        · exact Int.le_trans (by decide) first.1
        · have depth := within.depth
          simp only [callStack, Option.getD_some]
          omega
      · simp only [Action.apply, left]
        exact ⟨within.above, within.below, within.frames, within.depth, within.steps⟩
  | work task => exact ⟨within.above, within.below, within.frames, within.depth, within.steps⟩

theorem fetch_inside {index : Int} {instruction : Instruction}
    (fetched : image.fetch? index = some instruction) :
    0 ≤ index ∧ index < image.program.instructions.size := by
  unfold Image.fetch? at fetched
  split at fetched
  · cases fetched
  · obtain ⟨inside, _⟩ := Array.getElem?_eq_some_iff.mp fetched
    omega

theorem Within.advance (within : machine.Within length limit) (inside : machine.ip < length)
    (below : machine.steps < limit) : machine.advance.Within length limit where
  above := by
    have above := within.above
    simp only [Machine.advance]
    omega
  below := inside
  frames := within.frames
  depth := by
    have depth := within.depth
    simp only [Machine.advance, callStack] at depth ⊢
    omega
  steps := below

/-- What a step can do: nothing, halt, or act on an instruction within the program. -/
theorem step_keeps (holds : Machine → Prop) (closed : image.Closed) (now : holds machine)
    (halts : holds { machine with halted := true })
    (acts : ∀ action : Action, action.Within image.program.instructions.size → 0 ≤ machine.ip →
      machine.ip < image.program.instructions.size → machine.steps < image.stepLimit →
      holds (action.apply machine.advance).1) :
    holds (machine.step image).1 := by
  unfold Machine.step
  split
  · exact now
  · split
    · exact halts
    · rename_i instruction fetched
      split
      · exact now
      · rename_i unlimited
        have inside := fetch_inside fetched
        have moved := acts (image.action instruction) (closed.action instruction) inside.1 inside.2
          (Int.not_le.mp unlimited)
        rw [← Image.execute_action] at moved
        split <;> rename_i executed <;> rwa [executed] at moved

theorem Within.step (closed : image.Closed)
    (within : machine.Within image.program.instructions.size image.stepLimit) :
    (machine.step image).1.Within image.program.instructions.size image.stepLimit := by
  apply step_keeps _ closed within
  · exact ⟨within.above, within.below, within.frames, within.depth, within.steps⟩
  · intro action fits above inside below
    have depth := within.depth
    apply (within.advance inside below).apply _ _ fits
    · simp only [Machine.advance]
      omega
    · simp only [Machine.advance, callStack] at depth ⊢
      omega

/-- The state after some steps, whether or not they fail. -/
def after (image : Image) (machine : Machine) : Nat → Machine
  | 0 => machine
  | count + 1 => ((machine.after image count).step image).1

theorem Within.after (closed : image.Closed)
    (within : machine.Within image.program.instructions.size image.stepLimit) (count : Nat) :
    (machine.after image count).Within image.program.instructions.size image.stepLimit := by
  induction count with
  | zero => exact within
  | succ count induction => exact induction.step closed

theorem size_apply {action : Action} (fits : action.Within length) (machine : Machine) :
    (action.apply machine).1.memory.size = machine.memory.size := by
  cases action with
  | enter target => rfl
  | leave =>
      rcases machine.leave_cases with ⟨_, _, _, left⟩ | ⟨_, left⟩ <;>
        simp only [Action.apply, left]
  | work task => exact fits.size machine.toCore

theorem size_step (closed : image.Closed) (machine : Machine) :
    (machine.step image).1.memory.size = machine.memory.size := by
  apply step_keeps (fun after => after.memory.size = machine.memory.size) closed rfl rfl
  intro action fits _ _ _
  exact size_apply fits machine.advance

theorem size_after (closed : image.Closed) (machine : Machine) (count : Nat) :
    (machine.after image count).memory.size = machine.memory.size := by
  induction count with
  | zero => rfl
  | succ count induction => exact (size_step closed _).trans induction

end Machine
end ExprCompiler
