import ExprCompiler.Proofs.Codegen.Run

/-!
The states of a program between its steps. A machine that runs straight code stands before some of
its lines, with the core that the lines already taken have left; behind the last line it returns
and stays as it is.
-/

namespace ExprCompiler

/-- A loaded program that is straight code with one return at its end. -/
structure Image.RunsStraight (image : Image) (code : List Line) : Prop where
  instructions : ∃ number last, image.program.instructions.toList =
    instructionsFrom number code ++ [⟨last, .ret, []⟩]
  straight : ∀ line ∈ code, line.isStraight = true
  calls : ∀ line ∈ code, image.Calls line

theorem runs_straight_main {names : List Bytes} {body : List Line} {options : MachineOptions}
    {loaded : Loaded} (plain : ∀ line ∈ body, line.isPlain = true)
    (load : (generatedProgram (mainLines names body ++ [Line.op .ret []]) names).load options =
      .ok loaded) : loaded.image.RunsStraight (mainLines names body) := by
  obtain ⟨_, _, _, image, _⟩ := load_cases load
  have program : loaded.image.program =
      generatedProgram (mainLines names body ++ [Line.op .ret []]) names := by rw [image]
  have fine := @main_lines_straight names body plain
  refine ⟨⟨6, 6 + (mainLines names body).length, ?_⟩, ?_, ?_⟩
  · rw [program]
    exact program_instructions names body
  · intro line member
    exact (fine line member).1
  · intro line member
    exact calls_imported program (fine line member).2

namespace Machine

theorem step_many_succ {image : Image} {machine after : Machine} {count : Nat}
    (reached : machine.stepMany image (count + 1) = (after, none)) :
    ∃ middle, machine.stepMany image count = (middle, none) ∧ middle.step image = (after, none) := by
  induction count generalizing machine with
  | zero =>
      rw [stepMany] at reached
      split at reached
      · rename_i next step
        cases reached
        exact ⟨machine, rfl, step⟩
      · rename_i failed step
        exact absurd reached (step after)
  | succ count induction =>
      rw [stepMany] at reached
      split at reached
      · rename_i next step
        obtain ⟨middle, before, last⟩ := induction reached
        refine ⟨middle, ?_, last⟩
        rw [stepMany, step]
        exact before
      · rename_i failed step
        exact absurd reached (step after)

theorem step_many_earlier {image : Image} {machine after : Machine} {count earlier : Nat}
    (reached : machine.stepMany image count = (after, none)) (before : earlier ≤ count) :
    ∃ middle, machine.stepMany image earlier = (middle, none) := by
  induction count generalizing after with
  | zero =>
      obtain rfl : earlier = 0 := by omega
      exact ⟨after, reached⟩
  | succ count induction =>
      by_cases last : earlier = count + 1
      · subst last
        exact ⟨after, reached⟩
      · obtain ⟨middle, inner, _⟩ := step_many_succ reached
        exact induction inner (by omega)

/-- A machine that has some lines of straight code left to take. -/
structure Facing (code : List Line) (machine : Machine) (rest : List Line) : Prop where
  running : machine.halted = false
  outermost : machine.frames = none
  place : ∃ taken, code = taken ++ rest ∧ machine.ip = taken.length

theorem facing_main {names : List Bytes} {body : List Line} {options : MachineOptions}
    {loaded : Loaded}
    (load : (generatedProgram (mainLines names body ++ [Line.op .ret []]) names).load options =
      .ok loaded) : loaded.machine.Facing (mainLines names body) (mainLines names body) := by
  obtain ⟨_, _, _, _, machine⟩ := load_cases load
  constructor
  · rw [machine]
  · rw [machine]
  · refine ⟨[], rfl, ?_⟩
    rw [machine]
    rfl

section Steps

variable {image : Image} {code rest : List Line} {line : Line} {machine after : Machine}

theorem fetch_facing (program : image.RunsStraight code) (facing : machine.Facing code rest) :
    match rest with
    | [] => ∃ number, image.fetch? machine.ip = some ⟨number, .ret, []⟩
    | .instruction mnemonic operands :: _ =>
        ∃ number, image.fetch? machine.ip = some ⟨number, mnemonic, operands⟩
    | _ => False := by
  obtain ⟨number, last, instructions⟩ := program.instructions
  obtain ⟨taken, rfl, ip⟩ := facing.place
  have length := @instructions_from_length taken
    (fun line member => program.straight line (by simp [member])) number
  rw [instructions_from_append, List.append_assoc] at instructions
  rw [ip, ← length]
  cases rest with
  | nil => exact ⟨last, fetch_placed instructions⟩
  | cons line rest =>
      have straight := program.straight line (by simp)
      cases line with
      | instruction mnemonic operands => exact ⟨_, fetch_placed instructions⟩
      | _ => cases straight

theorem step_below_limit (running : machine.halted = false) {instruction : Instruction}
    (fetched : image.fetch? machine.ip = some instruction)
    (step : machine.step image = (after, none)) : machine.steps < image.stepLimit := by
  apply Int.not_le.mp
  intro limited
  unfold Machine.step at step
  rw [running, if_neg (by decide), fetched] at step
  simp only [if_pos limited] at step
  cases step

theorem step_facing (program : image.RunsStraight code) (facing : machine.Facing code (line :: rest))
    (step : machine.step image = (after, none)) :
    image.perform line machine.toCore = ⟨after.toCore, none⟩ ∧ after.Facing code rest := by
  have fetched := fetch_facing program facing
  obtain ⟨taken, split, ip⟩ := facing.place
  have member : line ∈ code := by simp [split]
  cases line with
  | instruction mnemonic operands =>
      obtain ⟨number, here⟩ := fetched
      have limit := step_below_limit facing.running here step
      have taking := step_straight facing.running here limit (program.straight _ member)
        (program.calls _ member)
      rw [step] at taking
      obtain ⟨moved, quiet⟩ := Prod.mk.inj taking
      have fault := Option.map_eq_none_iff.mp quiet.symm
      refine ⟨?_, ?_, ?_, taken ++ [.instruction mnemonic operands], ?_, ?_⟩
      · rw [moved, Effect.mk.injEq]
        exact ⟨rfl, fault⟩
      · rw [moved]
        exact facing.running
      · rw [moved]
        exact facing.outermost
      · rw [split, List.append_assoc]
        rfl
      · rw [moved, List.length_append, List.length_singleton]
        simp only [Machine.moved, ip]
        omega
  | _ => cases program.straight _ member

/-- A step behind the last line changes nothing that lines work with. -/
theorem step_behind (program : image.RunsStraight code)
    (behind : machine.Facing code [] ∨ machine.halted = true)
    (step : machine.step image = (after, none)) :
    after.toCore = machine.toCore ∧ after.halted = true := by
  rcases behind with facing | halted
  · obtain ⟨number, fetched⟩ := fetch_facing program facing
    have limit := step_below_limit facing.running fetched step
    have frames : machine.advance.frames = none := facing.outermost
    unfold Machine.step at step
    rw [facing.running, if_neg (by decide), fetched] at step
    simp only [if_neg (Int.not_le.mpr limit), execute, leave, frames] at step
    cases step
    exact ⟨rfl, rfl⟩
  · rw [Machine.step, if_pos halted] at step
    cases step
    exact ⟨rfl, halted⟩

/-- What every line of a program keeps is true in all its states. The number of steps is part of
it, since a property may speak about the steps before. -/
theorem steps_keep (holds : Nat → List Line → Core → Prop) {count : Nat}
    (program : image.RunsStraight code) (fresh : machine.Facing code code)
    (start : holds 0 code machine.toCore)
    (taking : ∀ {count line rest before after}, machine.stepMany image count = (before, none) →
      before.Facing code (line :: rest) → machine.stepMany image (count + 1) = (after, none) →
      image.perform line before.toCore = ⟨after.toCore, none⟩ →
      holds count (line :: rest) before.toCore → holds (count + 1) rest after.toCore)
    (resting : ∀ {count before}, machine.stepMany image count = (before, none) →
      before.Facing code [] ∨ before.halted = true → holds count [] before.toCore →
      holds (count + 1) [] before.toCore)
    (reached : machine.stepMany image count = (after, none)) :
    ∃ rest, holds count rest after.toCore := by
  have all : (∃ rest, after.Facing code rest ∧ holds count rest after.toCore) ∨
      (after.halted = true ∧ holds count [] after.toCore) := by
    induction count generalizing after with
    | zero =>
        cases reached
        exact .inl ⟨code, fresh, start⟩
    | succ count induction =>
        obtain ⟨before, earlier, step⟩ := step_many_succ reached
        have idle (behind : before.Facing code [] ∨ before.halted = true)
            (held : holds count [] before.toCore) :
            after.halted = true ∧ holds (count + 1) [] after.toCore := by
          obtain ⟨same, halted⟩ := step_behind program behind step
          refine ⟨halted, ?_⟩
          rw [same]
          exact resting earlier behind held
        rcases induction earlier with ⟨rest, facing, held⟩ | ⟨halted, held⟩
        · cases rest with
          | nil => exact .inr (idle (.inl facing) held)
          | cons line rest =>
              obtain ⟨performed, next⟩ := step_facing program facing step
              exact .inl ⟨rest, next, taking earlier facing reached performed held⟩
        · exact .inr (idle (.inr halted) held)
  rcases all with ⟨rest, _, held⟩ | ⟨_, held⟩
  · exact ⟨rest, held⟩
  · exact ⟨[], held⟩

theorem step_many_taken {taken : List Line} {core : Core} (program : image.RunsStraight code)
    (facing : machine.Facing code (taken ++ rest))
    (limit : machine.steps + taken.length ≤ image.stepLimit)
    (performed : image.performAll taken machine.toCore = ⟨core, none⟩) :
    ∃ after, machine.stepMany image taken.length = (after, none) ∧ after.toCore = core := by
  induction taken generalizing machine with
  | nil =>
      cases performed
      exact ⟨machine, rfl, rfl⟩
  | cons line taken induction =>
      have fetched := fetch_facing program facing
      obtain ⟨earlier, split, _⟩ := facing.place
      have member : line ∈ code := by simp [split]
      rw [List.length_cons] at limit ⊢
      cases line with
      | instruction mnemonic operands =>
          obtain ⟨number, here⟩ := fetched
          have taking := step_straight facing.running here (by omega) (program.straight _ member)
            (program.calls _ member)
          rw [Image.performAll] at performed
          cases effect : image.perform (.instruction mnemonic operands) machine.toCore with
          | mk middle fault =>
              rw [effect] at taking performed
              cases fault with
              | some fault => cases performed
              | none =>
                  have step : machine.step image = (machine.moved middle, none) := taking
                  have next := (step_facing program facing step).2
                  have steps : (machine.moved middle).steps = machine.steps + 1 := rfl
                  rw [stepMany, step]
                  exact induction next (by omega) performed
      | _ => cases program.straight _ member

end Steps

end Machine

end ExprCompiler
