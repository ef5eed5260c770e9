import ExprCompiler.Machine.Step
import ExprCompiler.Proofs.Assembly.Line

/-!
Straight code: instructions that neither jump nor return, calls of imported routines included. Its
effect on the core of a machine is that of its lines one after the other, up to the first fault,
and a program made of straight code and one return at its end runs to that effect.
-/

namespace ExprCompiler

def Effect.andThen (effect : Effect) (next : Core → Effect) : Effect :=
  match effect with
  | ⟨after, none⟩ => next after
  | ⟨after, some fault⟩ => ⟨after, some fault⟩

theorem Effect.and_then_done (effect : Effect) :
    effect.andThen (fun core => ⟨core, none⟩) = effect := by
  obtain ⟨core, fault⟩ := effect
  cases fault <;> rfl

namespace Image

def perform (image : Image) (line : Line) (core : Core) : Effect :=
  match line with
  | .instruction .call [.label name] => image.callRoutine name core
  | .instruction mnemonic operands => image.compute ⟨0, mnemonic, operands⟩ core
  | _ => ⟨core, none⟩

def performAll (image : Image) : List Line → Core → Effect
  | [], core => ⟨core, none⟩
  | line :: rest, core => (image.perform line core).andThen (image.performAll rest)

theorem perform_all_cons {image : Image} {line : Line} {core after : Core}
    (performed : image.perform line core = ⟨after, none⟩) (rest : List Line) :
    image.performAll (line :: rest) core = image.performAll rest after := by
  rw [performAll, performed]
  rfl

theorem perform_all_append (image : Image) (before after : List Line) (core : Core) :
    image.performAll (before ++ after) core =
      (image.performAll before core).andThen (image.performAll after) := by
  induction before generalizing core with
  | nil => rfl
  | cons line before induction =>
      rw [List.cons_append, performAll, performAll]
      cases effect : image.perform line core with
      | mk middle fault =>
          cases fault with
          | none => exact induction middle
          | some fault => rfl

/-- The effect depends on the addresses of the data and on the routines only. -/
theorem perform_all_congr {image other : Image} (symbols : image.symbols = other.symbols)
    (routines : image.routines = other.routines) (lines : List Line) (core : Core) :
    image.performAll lines core = other.performAll lines core := by
  have resolve : image.resolve = other.resolve := by
    funext name
    simp only [Image.resolve, symbols]
  have address : image.address = other.address := by
    funext core base displacement
    simp only [Image.address, resolve]
  have load : image.load = other.load := by
    funext core operand
    cases operand <;> simp only [Image.load, resolve, address]
  have store : image.store = other.store := by
    funext core operand value
    cases operand <;> simp only [Image.store, address]
  have compute : image.compute = other.compute := by
    funext instruction core
    simp only [Image.compute, Image.withWord, Image.combine, Image.popInto, load, store]
  have perform : image.perform = other.perform := by
    funext line core
    simp only [Image.perform, Image.callRoutine, routines, compute]
  induction lines generalizing core with
  | nil => rfl
  | cons line rest induction =>
      rw [performAll, performAll, perform, funext induction]

end Image

namespace Line

/-- Whether a line is straight code, with as many operands as its instruction takes. -/
def isStraight : Line → Bool
  | instruction .mov [_, _] => true
  | instruction .push [_] => true
  | instruction .pop [_] => true
  | instruction .add [_, _] => true
  | instruction .sub [_, _] => true
  | instruction .imul [_, _] => true
  | instruction .neg [_] => true
  | instruction .cdq [] => true
  | instruction .idiv [_] => true
  | instruction .call [.label _] => true
  | _ => false

def routine? : Line → Option Bytes
  | instruction .call [.label name] => some name
  | _ => none

end Line

/-- Routines are called by names that the program imports and does not define. -/
def Image.Calls (image : Image) (line : Line) : Prop :=
  ∀ name ∈ line.routine?, image.program.labels.find? name = none ∧
    image.program.isImported name = true

namespace Machine

def moved (machine : Machine) (core : Core) : Machine :=
  { machine with toCore := core, ip := machine.ip + 1, steps := machine.steps + 1 }

theorem execute_straight {image : Image} {number : Nat} {mnemonic : Mnemonic}
    {operands : List Operand} (machine : Machine)
    (straight : (Line.instruction mnemonic operands).isStraight = true)
    (calls : image.Calls (.instruction mnemonic operands)) :
    machine.advance.execute image ⟨number, mnemonic, operands⟩ =
      (machine.moved (image.perform (.instruction mnemonic operands) machine.toCore).core,
        (image.perform (.instruction mnemonic operands) machine.toCore).fault) := by
  unfold Line.isStraight at straight
  split at straight
  case h_10 name same =>
    cases same
    obtain ⟨noLabel, imported⟩ := calls name rfl
    simp only [execute, call, noLabel, imported, if_true]
    rfl
  case h_11 => cases straight
  all_goals
    rename_i same
    cases same
    rfl

theorem step_straight {image : Image} {number : Nat} {mnemonic : Mnemonic}
    {operands : List Operand} {machine : Machine} (running : machine.halted = false)
    (fetched : image.fetch? machine.ip = some ⟨number, mnemonic, operands⟩)
    (limit : machine.steps < image.stepLimit)
    (straight : (Line.instruction mnemonic operands).isStraight = true)
    (calls : image.Calls (.instruction mnemonic operands)) :
    machine.step image =
      (machine.moved (image.perform (.instruction mnemonic operands) machine.toCore).core,
        (image.perform (.instruction mnemonic operands) machine.toCore).fault.map fun fault =>
          ⟨some ⟨number, mnemonic, operands⟩, fault⟩) := by
  unfold step
  rw [running, if_neg (by decide), fetched]
  simp only
  rw [if_neg (by omega), execute_straight machine straight calls]
  cases (image.perform (.instruction mnemonic operands) machine.toCore).fault <;> rfl

theorem run_of_step {image : Image} {machine after : Machine} (running : machine.halted = false)
    (step : machine.step image = (after, none)) : machine.run image = after.run image := by
  rw [run, dif_pos running]
  split
  · rename_i next stepped
    rw [step] at stepped
    cases stepped
    rfl
  · rename_i next error stepped
    rw [step] at stepped
    cases stepped

theorem run_of_failed_step {image : Image} {machine after : Machine} {error : RunError}
    (running : machine.halted = false) (step : machine.step image = (after, some error)) :
    machine.run image = (after, some error) := by
  rw [run, dif_pos running]
  split
  · rename_i next stepped
    rw [step] at stepped
    cases stepped
  · rename_i next failed stepped
    rw [step] at stepped
    cases stepped
    rfl

theorem run_of_halted {image : Image} {machine : Machine} (halted : machine.halted = true) :
    machine.run image = (machine, none) := by
  rw [run, dif_neg (by simp [halted])]

/-- A run that ends with a given effect: with its fault, or at the return when there is none. -/
structure RunsTo (image : Image) (machine : Machine) (effect : Effect) : Prop where
  core : (machine.run image).1.toCore = effect.core
  fault : (machine.run image).2.map RunError.fault = effect.fault
  halted : effect.fault = none → (machine.run image).1.halted = true

theorem runs_to_return {image : Image} {machine : Machine} {number : Nat}
    (running : machine.halted = false)
    (fetched : image.fetch? machine.ip = some ⟨number, .ret, []⟩)
    (limit : machine.steps < image.stepLimit) (outermost : machine.frames = none) :
    RunsTo image machine ⟨machine.toCore, none⟩ := by
  have leaving : machine.advance.leave = { machine.advance with halted := true } := by
    have frames : machine.advance.frames = none := outermost
    unfold leave
    simp only [frames]
  have step : machine.step image = ({ machine.advance with halted := true }, none) := by
    unfold Machine.step
    rw [running, if_neg (by decide), fetched]
    simp only
    rw [if_neg (by omega), execute]
    simp only [leaving]
  have result := (run_of_step running step).trans (run_of_halted rfl)
  constructor
  · rw [result]
    rfl
  · rw [result]
    rfl
  · intro _
    rw [result]

theorem fetch_placed {image : Image} {before later : List Instruction} {next : Instruction}
    (placed : image.program.instructions.toList = before ++ next :: later) :
    image.fetch? before.length = some next := by
  rw [Image.fetch?, if_neg (by omega), Int.toNat_natCast, ← Array.getElem?_toList, placed,
    List.getElem?_append_right (Nat.le_refl _), Nat.sub_self]
  rfl

theorem placed_before_limit {image : Image} {before later : List Instruction} {next : Instruction}
    (placed : image.program.instructions.toList = before ++ next :: later)
    (limit : image.program.instructions.size ≤ image.stepLimit) :
    (before.length : Int) < image.stepLimit := by
  have length := congrArg List.length placed
  simp only [Array.length_toList, List.length_append, List.length_cons] at length
  omega

/-- Straight code with one return behind it runs to its effect, whatever came before it. -/
theorem runs_to_straight {image : Image} {code : List Line} {before : List Instruction}
    {number last : Nat} {machine : Machine}
    (placed : image.program.instructions.toList =
      before ++ (instructionsFrom number code ++ [⟨last, .ret, []⟩]))
    (straight : ∀ line ∈ code, line.isStraight = true) (calls : ∀ line ∈ code, image.Calls line)
    (running : machine.halted = false) (outermost : machine.frames = none)
    (here : machine.ip = before.length) (counted : machine.steps = before.length)
    (limit : image.program.instructions.size ≤ image.stepLimit) :
    RunsTo image machine (image.performAll code machine.toCore) := by
  induction code generalizing before number machine with
  | nil =>
      have fetched := fetch_placed placed
      have inLimit := placed_before_limit placed limit
      rw [← here] at fetched
      rw [← counted] at inLimit
      exact runs_to_return running fetched inLimit outermost
  | cons line code induction =>
      have lineStraight := straight line (by simp)
      cases line with
      | instruction mnemonic operands =>
          have fetched := fetch_placed placed
          have inLimit := placed_before_limit placed limit
          rw [← here] at fetched
          rw [← counted] at inLimit
          have step := step_straight running fetched inLimit lineStraight (calls _ (by simp))
          rw [Image.performAll]
          cases effect : image.perform (.instruction mnemonic operands) machine.toCore with
          | mk core fault =>
              rw [effect] at step
              cases fault with
              | some fault =>
                  have result := run_of_failed_step running step
                  constructor
                  · rw [result]
                    rfl
                  · rw [result]
                    rfl
                  · intro quiet
                    cases quiet
              | none =>
                  have later : image.program.instructions.toList =
                      (before ++ [⟨number, mnemonic, operands⟩]) ++
                        (instructionsFrom (number + 1) code ++ [⟨last, .ret, []⟩]) := by
                    rw [placed, List.append_assoc]
                    rfl
                  have rest := @induction (before ++ [⟨number, mnemonic, operands⟩]) (number + 1)
                    (machine.moved core) later
                    (fun other member => straight other (by simp [member]))
                    (fun other member => calls other (by simp [member])) running outermost
                    (by simp [moved, here]) (by simp [moved, counted])
                  have next := run_of_step running step
                  exact ⟨by rw [next]; exact rest.core, by rw [next]; exact rest.fault,
                    by rw [next]; exact rest.halted⟩
      | _ => cases lineStraight

end Machine

end ExprCompiler
