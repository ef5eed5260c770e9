import ExprCompiler.Proofs.Machine.Straight

/-!
Straight code in any place of a program. Whatever stands around it, whatever the machine has done
before and whoever called it, a machine that stands at its first line takes one step for each line,
up to the line that fails if there is one.
-/

namespace ExprCompiler

def Instruction.asLine (instruction : Instruction) : Line :=
  .instruction instruction.mnemonic instruction.operands

/-- The lines stand one behind the other in a program, the first one at an index. -/
def Program.HoldsAt (program : Program) (place : Nat) (code : List Line) : Prop :=
  ∃ before behind, program.instructions.toList.map Instruction.asLine = before ++ code ++ behind ∧
    before.length = place

theorem Program.HoldsAt.later {program : Program} {place : Nat} {line : Line} {code : List Line}
    (holds : program.HoldsAt place (line :: code)) : program.HoldsAt (place + 1) code := by
  obtain ⟨before, behind, lines, length⟩ := holds
  refine ⟨before ++ [line], behind, ?_, ?_⟩
  · rw [lines]
    simp
  · rw [List.length_append, length]
    rfl

theorem Program.HoldsAt.fetched {image : Image} {place : Nat} {line : Line} {code : List Line}
    (holds : image.program.HoldsAt place (line :: code)) :
    ∃ instruction, image.fetch? place = some instruction ∧ instruction.asLine = line := by
  obtain ⟨before, behind, lines, rfl⟩ := holds
  have here : (image.program.instructions.toList.map Instruction.asLine)[before.length]? =
      some line := by
    rw [lines, List.append_assoc, List.getElem?_append_right (Nat.le_refl _), Nat.sub_self]
    rfl
  rw [List.getElem?_map, Array.getElem?_toList, Option.map_eq_some_iff] at here
  obtain ⟨instruction, found, same⟩ := here
  refine ⟨instruction, ?_, same⟩
  rw [Image.fetch?, if_neg (by omega), Int.toNat_natCast]
  exact found

namespace Machine

/-- The machine after some lines of straight code. -/
def movedBy (machine : Machine) (count : Nat) (core : Core) : Machine :=
  { machine with toCore := core, ip := machine.ip + count, steps := machine.steps + count }

theorem moved_by_zero (machine : Machine) : machine.movedBy 0 machine.toCore = machine := by
  unfold movedBy
  rw [Int.natCast_zero, Int.add_zero, Int.add_zero]

theorem moved_then_by (machine : Machine) (first last : Core) (count : Nat) :
    (machine.moved first).movedBy count last = machine.movedBy (count + 1) last := by
  have counted (start : Int) : start + 1 + count = start + (count + 1 : Nat) := by omega
  simp only [moved, movedBy, counted]

theorem run_behind {image : Image} {machine after : Machine} {count : Nat}
    (reached : machine.stepMany image count = (after, none)) :
    machine.run image = after.run image := by
  induction count generalizing machine with
  | zero =>
      cases reached
      rfl
  | succ count induction =>
      rw [stepMany] at reached
      split at reached
      · rename_i next step
        rw [← induction reached]
        cases running : machine.halted with
        | false => exact run_of_step running step
        | true =>
            rw [Machine.step, if_pos running] at step
            cases step
            rfl
      · rename_i failed step
        exact absurd reached (step after)

/-- The machine stands at the first line of straight code and has steps enough for all of it. -/
structure Enters (machine : Machine) (image : Image) (place : Nat) (code : List Line) : Prop where
  holds : image.program.HoldsAt place code
  straight : ∀ line ∈ code, line.isStraight = true
  calls : ∀ line ∈ code, image.Calls line
  running : machine.halted = false
  here : machine.ip = place
  enough : machine.steps + code.length ≤ image.stepLimit

namespace Enters

variable {image : Image} {place : Nat} {line : Line} {code : List Line} {machine : Machine}
  {core : Core} {fault : Fault}

theorem later (enters : machine.Enters image place (line :: code)) (core : Core) :
    (machine.moved core).Enters image (place + 1) code where
  holds := enters.holds.later
  straight := fun other member => enters.straight other (List.mem_cons_of_mem line member)
  calls := fun other member => enters.calls other (List.mem_cons_of_mem line member)
  running := enters.running
  here := by
    have next : (machine.moved core).ip = machine.ip + 1 := rfl
    rw [next, enters.here]
    rfl
  enough := by
    have enough := enters.enough
    have next : (machine.moved core).steps = machine.steps + 1 := rfl
    rw [List.length_cons] at enough
    omega

theorem step (enters : machine.Enters image place (line :: code)) :
    ∃ instruction, image.fetch? place = some instruction ∧ instruction.asLine = line ∧
      machine.step image =
        (machine.moved (image.perform line machine.toCore).core,
          (image.perform line machine.toCore).fault.map fun fault => ⟨some instruction, fault⟩) := by
  obtain ⟨instruction, fetched, rfl⟩ := enters.holds.fetched
  have limit : machine.steps < image.stepLimit := by
    have enough := enters.enough
    rw [List.length_cons] at enough
    omega
  refine ⟨instruction, fetched, rfl, ?_⟩
  rw [← enters.here] at fetched
  exact step_straight enters.running fetched limit (enters.straight _ List.mem_cons_self)
    (enters.calls _ List.mem_cons_self)

theorem passes (enters : machine.Enters image place code)
    (performed : image.performAll code machine.toCore = ⟨core, none⟩) :
    machine.stepMany image code.length = (machine.movedBy code.length core, none) := by
  -- The rest of the code is entered one place later, by the machine behind the first line.
  induction code generalizing place machine with
  | nil =>
      cases performed
      rw [List.length_nil, moved_by_zero]
      rfl
  | cons line rest induction =>
      obtain ⟨instruction, _, _, step⟩ := enters.step
      rw [Image.performAll] at performed
      cases effect : image.perform line machine.toCore with
      | mk middle ending =>
          rw [effect] at step performed
          cases ending with
          | some fault => cases performed
          | none =>
              have later := induction (enters.later middle) performed
              rw [List.length_cons, stepMany, step]
              exact later.trans (by rw [moved_then_by])

theorem fails (enters : machine.Enters image place code)
    (performed : image.performAll code machine.toCore = ⟨core, some fault⟩) :
    ∃ count before instruction, code[count]? = some instruction.asLine ∧
      image.fetch? (place + count : Nat) = some instruction ∧
      image.perform instruction.asLine before = ⟨core, some fault⟩ ∧
      machine.stepMany image count = (machine.movedBy count before, none) ∧
      (machine.movedBy count before).step image =
        (machine.movedBy (count + 1) core, some ⟨some instruction, fault⟩) := by
  induction code generalizing place machine with
  | nil => cases performed
  | cons line rest induction =>
      obtain ⟨instruction, fetched, same, step⟩ := enters.step
      rw [Image.performAll] at performed
      cases effect : image.perform line machine.toCore with
      | mk middle ending =>
          rw [effect] at step performed
          cases ending with
          | some problem =>
              cases performed
              refine ⟨0, machine.toCore, instruction, congrArg some same.symm, fetched,
                ?_, ?_, ?_⟩
              · rw [same]
                exact effect
              · rw [moved_by_zero]
                rfl
              · rw [moved_by_zero, step]
                rfl
          | none =>
              obtain ⟨count, before, failing, there, fetched, failed, reached, stops⟩ :=
                induction (enters.later middle) performed
              rw [moved_then_by] at reached stops
              refine ⟨count + 1, before, failing, there, ?_, failed, ?_, ?_⟩
              · rw [← fetched, Nat.add_assoc, Nat.add_comm 1]
              · rw [stepMany, step]
                exact reached
              · rw [stops, moved_then_by]

end Enters

end Machine

end ExprCompiler
