import ExprCompiler.Proofs.Machine.Resumption

/-!
Snapshots of other programs. A snapshot is refused where a data label of the program at hand stands
elsewhere in it or is missing from it, and then the machine stays as it was. The labels that only
the other program has are not looked at: if all others agree, the snapshot of a larger layout is
taken for one of the program at hand.
-/

namespace ExprCompiler

def RestoreError.isMismatch : RestoreError → Bool
  | differentMemorySize _ _ | differentSymbol _ => true
  | badInstructionPointer _ | badMemoryLength _ => true
  | notAnArchive | missingEntry _ | malformedState => false

def Machine.tryRestore (codec : SnapshotCodec) (image : Image) (archive : Archive)
    (machine : Machine) : Machine × Option RestoreError :=
  match machine.restoreArchive codec image archive with
  | .ok restored => (restored, none)
  | .error problem => (machine, some problem)

variable {text otherText input otherInput : Bytes}
  {memorySize stepLimit otherSize otherLimit : Int} {options : MachineOptions}
  {loaded other : Loaded} {codec : SnapshotCodec}

/-- No data stands at address zero, the address that a missing label is taken for. -/
theorem symbol_not_zero (load : loadListing text options = .ok loaded) {label : Bytes}
    {address : Word} (found : loaded.image.symbols.find? label = some address) : address ≠ 0 := by
  obtain ⟨program, _, load⟩ := load_listing_cases load
  obtain ⟨placed, _, chained, image, _⟩ := load_cases load
  have member := mem_of_find found
  rw [image] at member
  obtain ⟨one, inPlaced, same⟩ := List.mem_map.mp member
  have above := chained.above one inPlaced
  have below := chained.below one inPlaced
  have top := stack_top_bound options
  unfold Placed.finish at below
  unfold dataStart at above
  cases same
  intro zero
  have value := congrArg BitVec.toNat zero
  rw [BitVec.toNat_ofNat, Nat.mod_eq_of_lt (by omega)] at value
  simp at value
  omega

section Restore

variable {first second : Machine}

theorem placed_of_none_differs (load : loadListing otherText options = .ok other)
    (none : Machine.differingSymbol? other.image (first.snapshot loaded.image) = none) :
    other.image.symbols.Within loaded.image.symbols := by
  intro label address found
  rw [Machine.differingSymbol?, Option.map_eq_none_iff, List.find?_eq_none] at none
  have same := none (label, address) (mem_of_find found)
  have saved : (first.snapshot loaded.image).symbols.find? label =
      loaded.image.symbols.find? label := rfl
  simp only [saved, bne_iff_ne, ne_eq, Decidable.not_not] at same
  cases known : loaded.image.symbols.find? label with
  | some entry => rw [← same, known, Option.getD_some]
  | none =>
      rw [known] at same
      exact absurd same.symm (symbol_not_zero load found)

/-- What is wrong with a snapshot that does not fit, in the order of the checks. -/
theorem restore_mismatch {image : Image} {saved : Snapshot}
    (unfit : saved.memorySize ≠ second.memory.size ∨
      (∃ label, Machine.differingSymbol? image saved = some label) ∨
      (image.program.instructions.size : Int) < saved.ip) :
    ∃ problem, problem.isMismatch = true ∧ second.restore image saved = .error problem := by
  unfold Machine.restore
  split
  · exact ⟨_, rfl, rfl⟩
  · rename_i sameSize
    split
    · exact ⟨_, rfl, rfl⟩
    · rename_i noLabel
      rcases unfit with size | ⟨label, differs⟩ | behind
      · exact absurd size sameSize
      · rw [noLabel] at differs
        cases differs
      · rw [if_pos (by simp [behind])]
        exact ⟨_, rfl, rfl⟩

end Restore

section Listings

variable {first second : Machine} {count otherCount : Nat}

/-- Where a program finds all its labels and its instruction, the state of another one is taken
over. -/
theorem foreign_snapshot_accepted (lawful : codec.Lawful)
    (load : loadListing text { memorySize, stepLimit, input } = .ok loaded)
    (otherLoad : loadListing otherText options = .ok other)
    (textFits : IsInt64 text.length) (sizeFits : IsInt64 memorySize)
    (limitFits : IsInt64 stepLimit) (reached : loaded.machine.after loaded.image count = first)
    (sameSize : loaded.machine.memory.size = second.memory.size)
    (placed : other.image.symbols.Within loaded.image.symbols)
    (inside : first.ip ≤ other.image.program.instructions.size) :
    second.tryRestore codec other.image ((first.snapshot loaded.image).toArchive codec) =
      (first.movedTo second, none) := by
  have sound := load_sound load
  have within := sound.within.after (sound.closed rfl) count
  have size := Machine.size_after (sound.closed rfl) loaded.machine count
  have fits := snapshot_fits sound rfl textFits sizeFits limitFits count
  rw [reached] at within size fits
  have symbols : Machine.differingSymbol? other.image (first.snapshot loaded.image) = none :=
    Machine.differing_symbol_none (load_sound otherLoad).symbols.distinct placed
  have restore := Machine.restore_placed within.above inside (size.trans sameSize) symbols
  simp only [Machine.tryRestore, Machine.restore_to_archive lawful fits, restore]

/-- A snapshot of a machine that loaded one listing, restored on a machine that loaded another one.
It is refused if memory has another size, if some data label of the second listing has another
address in the first one or none, or if the second program ends before the instruction to go on
with. In all other cases it is accepted. -/
theorem foreign_snapshot_refused (lawful : codec.Lawful)
    (load : loadListing text { memorySize, stepLimit, input } = .ok loaded)
    (otherLoad : loadListing otherText
      { memorySize := otherSize, stepLimit := otherLimit, input := otherInput } = .ok other)
    (textFits : IsInt64 text.length) (sizeFits : IsInt64 memorySize)
    (limitFits : IsInt64 stepLimit) (reached : loaded.machine.after loaded.image count = first)
    (otherReached : other.machine.after other.image otherCount = second) :
    (loaded.machine.memory.size ≠ other.machine.memory.size ∨
        (∃ label address, other.image.symbols.find? label = some address ∧
          loaded.image.symbols.find? label ≠ some address) ∨
        other.image.program.instructions.size < first.ip →
      ∃ problem, problem.isMismatch = true ∧
        second.tryRestore codec other.image ((first.snapshot loaded.image).toArchive codec) =
          (second, some problem)) ∧
    (loaded.machine.memory.size = other.machine.memory.size →
      other.image.symbols.Within loaded.image.symbols →
      first.ip ≤ other.image.program.instructions.size →
      ∃ restored, first.SameState restored ∧
        second.tryRestore codec other.image ((first.snapshot loaded.image).toArchive codec) =
          (restored, none)) := by
  have sound := load_sound load
  have size := Machine.size_after (sound.closed rfl) loaded.machine count
  have otherSized := Machine.size_after ((load_sound otherLoad).closed rfl) other.machine otherCount
  have fits := snapshot_fits sound rfl textFits sizeFits limitFits count
  rw [reached] at size fits
  rw [otherReached] at otherSized
  refine ⟨?_, ?_⟩
  · intro unfit
    have unfit : (first.snapshot loaded.image).memorySize ≠ second.memory.size ∨
        (∃ label, Machine.differingSymbol? other.image (first.snapshot loaded.image) =
          some label) ∨
        (other.image.program.instructions.size : Int) < (first.snapshot loaded.image).ip := by
      rcases unfit with different | ⟨label, address, found, moved⟩ | behind
      · left
        rw [← size, ← otherSized] at different
        exact fun same => different (Int.ofNat.inj same)
      · right
        left
        cases differs : Machine.differingSymbol? other.image (first.snapshot loaded.image) with
        | some label => exact ⟨label, rfl⟩
        | none =>
            have placed := placed_of_none_differs otherLoad differs
            exact absurd (placed label address found) moved
      · exact .inr (.inr behind)
    obtain ⟨problem, mismatch, refused⟩ := restore_mismatch unfit
    refine ⟨problem, mismatch, ?_⟩
    simp only [Machine.tryRestore, Machine.restore_to_archive lawful fits, refused]
  · intro sameSize placed inside
    refine ⟨first.movedTo second, first.same_state_moved second, ?_⟩
    exact foreign_snapshot_accepted lawful load otherLoad textFits sizeFits limitFits reached
      (sameSize.trans otherSized.symm) placed inside

end Listings

def twoCells : Bytes :=
  utf8 "section .text\nmain:\n mov eax, 7\n mov [second], eax\n ret\n" ++
    utf8 "section .bss\nfirst: resd 1\nsecond: resd 1\n"

def oneCell : Bytes :=
  utf8 "section .text\nmain:\n mov eax, 1\n mov [first], eax\n ret\nsection .bss\nfirst: resd 1\n"

/-- A snapshot that lacks a label of the program at hand is refused. -/
theorem missing_label_refused :
    ∃ loaded other problem,
      loadListing oneCell { memorySize := 8224 } = .ok loaded ∧
      loadListing twoCells { memorySize := 8224 } = .ok other ∧
      loaded.image.symbols ≠ other.image.symbols ∧ problem.isMismatch = true ∧
      other.machine.tryRestore .json other.image
          (((loaded.machine.after loaded.image 2).snapshot loaded.image).toArchive .json) =
        (other.machine, some problem) := by
  obtain ⟨loaded, load, lacks⟩ := @listing_of_check oneCell { memorySize := 8224 }
    (fun loaded => decide (loaded.image.symbols = [(utf8 "first", 4096)])) (by decide +kernel)
  obtain ⟨other, otherLoad, labels⟩ := @listing_of_check twoCells { memorySize := 8224 }
    (fun other => decide (other.image.symbols = [(utf8 "first", 4096), (utf8 "second", 4100)]))
    (by decide +kernel)
  rw [decide_eq_true_eq] at lacks labels
  have textFits : IsInt64 oneCell.length := by decide +kernel
  have moved : ∃ label address, other.image.symbols.find? label = some address ∧
      loaded.image.symbols.find? label ≠ some address := by
    rw [lacks, labels]
    exact ⟨utf8 "second", 4100, by decide, by decide⟩
  obtain ⟨problem, mismatch, refused⟩ :=
    (foreign_snapshot_refused SnapshotCodec.json_lawful load otherLoad textFits (by decide) (by decide)
      (Eq.refl (loaded.machine.after loaded.image 2))
      (Eq.refl (other.machine.after other.image 0))).1 (.inr (.inl moved))
  refine ⟨loaded, other, problem, load, otherLoad, ?_, mismatch, refused⟩
  rw [lacks, labels]
  decide

/-- The other way round, the label that only the snapshot has goes unnoticed: the machine takes over
the state of the other program. -/
theorem extra_label_accepted :
    ∃ loaded other restored,
      loadListing twoCells { memorySize := 8224 } = .ok loaded ∧
      loadListing oneCell { memorySize := 8224 } = .ok other ∧
      loaded.image.symbols ≠ other.image.symbols ∧
      other.machine.tryRestore .json other.image
          (((loaded.machine.after loaded.image 2).snapshot loaded.image).toArchive .json) =
        (restored, none) ∧
      restored.ip ≠ other.machine.ip ∧ restored.get .eax ≠ other.machine.get .eax := by
  obtain ⟨loaded, load, larger⟩ := @listing_of_check twoCells { memorySize := 8224 }
    (fun loaded => decide (loaded.image.symbols = [(utf8 "first", 4096), (utf8 "second", 4100)]) &&
      decide ((loaded.machine.after loaded.image 2).ip = 2) &&
      decide ((loaded.machine.after loaded.image 2).get .eax = 7))
    (by decide +kernel)
  obtain ⟨other, otherLoad, smaller⟩ := @listing_of_check oneCell { memorySize := 8224 }
    (fun other => decide (other.image.symbols = [(utf8 "first", 4096)]) &&
      decide (other.image.program.instructions.size = 3) &&
      decide (other.machine.ip = 0) && decide (other.machine.get .eax = 0))
    (by decide +kernel)
  simp only [Bool.and_eq_true, decide_eq_true_eq] at larger smaller
  obtain ⟨⟨labels, ip⟩, eax⟩ := larger
  obtain ⟨⟨⟨label, size⟩, start⟩, clear⟩ := smaller
  have textFits : IsInt64 twoCells.length := by decide +kernel
  have placed : other.image.symbols.Within loaded.image.symbols := by
    intro key address found
    rw [label, Table.find?] at found
    split at found
    · rename_i same
      cases found
      rw [labels, ← same]
      decide
    · cases found
  have sameSize : loaded.machine.memory.size = other.machine.memory.size :=
    (load_sound load).size.trans (load_sound otherLoad).size.symm
  have accepted := foreign_snapshot_accepted SnapshotCodec.json_lawful load otherLoad textFits
    (by decide) (by decide) (Eq.refl (loaded.machine.after loaded.image 2)) sameSize placed (by rw [ip, size]; decide)
  refine ⟨loaded, other, _, load, otherLoad, ?_, accepted, ?_, ?_⟩
  · rw [labels, label]
    decide
  · change (loaded.machine.after loaded.image 2).ip ≠ other.machine.ip
    rw [ip, start]
    decide
  · change (loaded.machine.after loaded.image 2).get .eax ≠ other.machine.get .eax
    rw [eax, clear]
    decide

end ExprCompiler
