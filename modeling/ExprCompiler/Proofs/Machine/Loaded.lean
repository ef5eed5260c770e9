import ExprCompiler.Proofs.Assembly.Linked
import ExprCompiler.Proofs.Machine.Layout
import ExprCompiler.Proofs.Machine.Reachable

/-!
Loaded listings. Labels lead into the program, data labels have one address each, and a machine
starts within its program. The input of a machine has no part in loading.
-/

namespace ExprCompiler

variable {text : Bytes} {options : MachineOptions} {loaded : Loaded} {program : Program}

theorem entry_inside {room : Nat} (linked : program.Linked room) :
    program.entry ≤ program.instructions.size := by
  unfold Program.entry
  cases found : (program.globals ++ [utf8 "main"]).findSome? fun name => program.labels.find? name with
  | none => exact Nat.zero_le _
  | some target =>
      obtain ⟨name, _, isLabel⟩ := List.exists_of_findSome?_eq_some found
      exact linked.targets (name, target) (mem_of_find isLabel)

theorem load_listing_cases (load : loadListing text options = .ok loaded) :
    ∃ program, readListing text = .ok program ∧ program.load options = .ok loaded := by
  unfold loadListing at load
  split at load
  · cases load
  · rename_i program read
    exact ⟨program, read, load⟩

theorem listing_of_check {holds : Loaded → Bool}
    (checked : (loadListing text options).toOption.any holds = true) :
    ∃ loaded, loadListing text options = .ok loaded ∧ holds loaded = true := by
  cases load : loadListing text options with
  | error problem =>
      rw [load] at checked
      cases checked
  | ok loaded =>
      rw [load] at checked
      exact ⟨loaded, rfl, checked⟩

theorem load_symbols (load : program.load options = .ok loaded) :
    loaded.image.symbols.map Prod.fst = program.dataLabels := by
  obtain ⟨placed, items, _, image, _⟩ := load_cases load
  rw [image, Program.dataLabels, ← items, List.map_map, List.map_map]
  rfl

/-- What holds of a loaded listing, whatever its options are. -/
structure Loaded.Sound (text : Bytes) (options : MachineOptions) (loaded : Loaded) : Prop where
  linked : loaded.image.program.Linked text.length
  symbols : loaded.image.symbols.IsNamed
  limit : loaded.image.stepLimit = options.limit
  size : loaded.machine.memory.size = options.size
  within : loaded.machine.Within loaded.image.program.instructions.size loaded.image.stepLimit
  routines : loaded.image.routines = options.routines
  unwritten : loaded.machine.written = []

theorem load_sound (load : loadListing text options = .ok loaded) : loaded.Sound text options := by
  obtain ⟨program, read, load⟩ := load_listing_cases load
  have linked := read_listing_linked read
  have labels := load_symbols load
  obtain ⟨placed, _, _, image, machine⟩ := load_cases load
  have program' : loaded.image.program = program := by rw [image]
  refine ⟨program' ▸ linked, ⟨?_, ?_⟩, ?_, ?_, ?_, ?_, ?_⟩
  · intro entry member
    have isLabel : entry.1 ∈ program.dataLabels := by
      rw [← labels]
      exact List.mem_map_of_mem member
    exact linked.names entry.1 (List.mem_append.mpr (.inr isLabel))
  · rw [labels]
    exact (List.nodup_append.mp linked.distinct).2.1
  · rw [image]
  · rw [machine]
    exact (Placed.size_store_all _ _).trans Array.size_replicate
  · rw [program', machine]
    have inside := entry_inside linked
    refine ⟨Int.natCast_nonneg _, Int.ofNat_le.mpr inside, ?_, Int.le_refl _, Int.natCast_nonneg _⟩
    intro index member
    cases member
  · rw [image]
  · rw [machine]

theorem Loaded.Sound.closed (sound : loaded.Sound text options)
    (standard : options.routines = standardRoutines) : loaded.image.Closed where
  routines := sound.routines.trans standard
  targets name target found := sound.linked.targets (name, target) (mem_of_find found)

theorem load_other_input (load : loadListing text options = .ok loaded) (rest : Bytes) :
    loadListing text { options with input := rest } =
      .ok ⟨loaded.image, { loaded.machine with unread := rest }⟩ := by
  unfold loadListing Program.load at load ⊢
  split at load
  · cases load
  · rename_i program read
    dsimp only at load ⊢
    split at load
    · cases load
    · rename_i placed placing
      cases load
      have same : layout (({ options with input := rest } : MachineOptions).stackTop / 2) program =
          .ok placed := placing
      simp only [same]
      rfl

end ExprCompiler
