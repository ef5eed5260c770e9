import ExprCompiler.Machine.Snapshot
import ExprCompiler.Proofs.Assembly.Linked
import ExprCompiler.Proofs.Json.Read
import ExprCompiler.Proofs.Machine.Resume

/-!
Snapshots. With a lawful codec, a snapshot is read back from its archive up to the order of tables,
which restoring does not see; the JSON codec is one. A snapshot is restored on any machine that
loaded a program with the same data layout.
-/

namespace ExprCompiler

def IsInt64 (value : Int) : Prop := -9223372036854775808 ≤ value ∧ value < 9223372036854775808

instance (value : Int) : Decidable (IsInt64 value) := inferInstanceAs (Decidable (_ ∧ _))

namespace Snapshot

open Json

/-- What the text of a state can hold. -/
structure Fits (saved : Snapshot) : Prop where
  registers : saved.registers.IsNamed
  ip : IsInt64 saved.ip
  steps : IsInt64 saved.steps
  callStack : ∀ index ∈ saved.callStack.getD [], IsInt64 index
  memorySize : IsInt64 saved.memorySize
  symbols : saved.symbols.IsNamed

def restock (table known : Table Word) : Table Word :=
  table.sorted.foldl (fun known entry => Table.set entry.1 entry.2 known) known

theorem restock_nil {table : Table Word} (named : table.IsNamed) :
    restock table [] = table.sorted := by
  apply Table.set_all
  exact (table.sorted_perm.map Prod.fst).nodup_iff.mpr named.distinct

theorem reads_words {table : Table Word} (named : table.IsNamed) (depth : Nat)
    (known : Table Word) :
    Reads wordsReader known ((wordsJson table).pretty depth) (restock table known) := by
  have reads (entry : Bytes × Word) (_ : entry ∈ table.sorted) :
      Reads Reader.word 0 ((Json.int entry.2.toNat).pretty (depth + 1)) entry.2 :=
    reads_word entry.2 0
  exact @reads_table _ _ Reader.word 0 (fun table name word => Table.set name word table) []
    (fun word => Json.int word.toNat) depth table.sorted
    (fun entry member => named.names entry (table.sorted_perm.mem_iff.mp member)) reads known

theorem reads_call_stack {callStack : Option (List Int)}
    (fits : ∀ index ∈ callStack.getD [], IsInt64 index) (depth : Nat)
    (known : Option (List Int)) :
    Reads (Reader.list Reader.int 0) known ((callStackJson callStack).pretty depth) callStack := by
  cases callStack with
  | none => exact reads_null_list depth known
  | some indices =>
      apply reads_list
      · intro index _
        exact starts_decimal index
      · intro index member known
        exact reads_int (fits index member).1 (fits index member).2 known

def entries (saved : Snapshot) : List ((Bytes × Json) × (Snapshot → Snapshot)) :=
  [(Json.member "registers" (wordsJson saved.registers), fun known =>
      { known with registers := restock saved.registers known.registers }),
    (Json.member "ip" (.int saved.ip), fun known => { known with ip := saved.ip }),
    (Json.member "halted" (.bool saved.halted), fun known =>
      { known with halted := saved.halted }),
    (Json.member "steps" (.int saved.steps), fun known => { known with steps := saved.steps }),
    (Json.member "call_stack" (callStackJson saved.callStack), fun known =>
      { known with callStack := saved.callStack }),
    (Json.member "memory_size" (.int saved.memorySize), fun known =>
      { known with memorySize := saved.memorySize }),
    (Json.member "symbols" (wordsJson saved.symbols), fun known =>
      { known with symbols := restock saved.symbols known.symbols })]

def IsFound (name : String) (read : Reader Snapshot) : Prop :=
  ∀ {value : Json} {known after : Snapshot}, Reads read known (value.pretty 1) after →
    Reads (Reader.member fields) known (memberText 1 (utf8 name, value)) after

theorem fields_found : ∀ field ∈ fields, IsFound field.name field.read := by
  have names : ∀ field ∈ fields, isName (utf8 field.name) = true := by decide +kernel
  intro field member value known after reads
  apply reads_member (names field member) _ reads
  simp only [fields, List.mem_cons, List.not_mem_nil, or_false] at member
  rcases member with rfl | rfl | rfl | rfl | rfl | rfl | rfl <;> rfl

theorem reads_entries {saved : Snapshot} (fits : saved.Fits) :
    ∀ entry ∈ saved.entries, ∀ known,
      Reads (Reader.member fields) known (memberText 1 entry.1) (entry.2 known) := by
  have found := fields_found
  simp only [fields, List.forall_mem_cons] at found
  obtain ⟨callStack, halted, ip, memorySize, registers, steps, symbols, _⟩ := found
  intro entry member known
  simp only [entries, List.mem_cons, List.not_mem_nil, or_false] at member
  rcases member with rfl | rfl | rfl | rfl | rfl | rfl | rfl
  · exact registers (reads_lift (reads_words fits.registers 1 _) rfl)
  · exact ip (reads_lift (reads_int fits.ip.1 fits.ip.2 _) rfl)
  · exact halted (reads_lift (reads_bool 1 saved.halted _) rfl)
  · exact steps (reads_lift (reads_int fits.steps.1 fits.steps.2 _) rfl)
  · exact callStack (reads_lift (reads_call_stack fits.callStack 1 _) rfl)
  · exact memorySize (reads_lift (reads_int fits.memorySize.1 fits.memorySize.2 _) rfl)
  · exact symbols (reads_lift (reads_words fits.symbols 1 _) rfl)

/-- A snapshot as the text of its state is read: the tables are sorted, and memory is not there. -/
def reread (saved : Snapshot) : Snapshot :=
  { saved with
    registers := saved.registers.sorted
    symbols := saved.symbols.sorted
    memory := none }

theorem read_state_text {saved : Snapshot} (fits : saved.Fits) :
    ofStateText? saved.stateText = some saved.reread := by
  have read := reads_braces (reads_entries fits) {} {} [] [] blank_nil (by simp [Ends])
  have whole : saved.entries.foldl (fun known entry => entry.2 known) {} = saved.reread := by
    simp only [entries, List.foldl_cons, List.foldl_nil, restock_nil fits.registers,
      restock_nil fits.symbols]
    rfl
  have text : (Json.object (saved.entries.map Prod.fst)).pretty 0 = saved.stateText := rfl
  rw [whole, text, List.append_nil, List.nil_append] at read
  simp only [ofStateText?, readDocument, Reader.record, read]
  rfl

/-- The same snapshot but for the order in which tables list their entries. -/
structure Alike (saved again : Snapshot) : Prop where
  registers : ∀ name, again.registers.find? name = saved.registers.find? name
  ip : again.ip = saved.ip
  halted : again.halted = saved.halted
  steps : again.steps = saved.steps
  callStack : again.callStack = saved.callStack
  memorySize : again.memorySize = saved.memorySize
  symbols : ∀ label, again.symbols.find? label = saved.symbols.find? label
  memory : again.memory = saved.memory

theorem alike_reread {saved : Snapshot} (fits : saved.Fits) :
    saved.Alike { saved.reread with memory := saved.memory } where
  registers := find_perm fits.registers.distinct (Table.sorted_perm _)
  ip := rfl
  halted := rfl
  steps := rfl
  callStack := rfl
  memorySize := rfl
  symbols := find_perm fits.symbols.distinct (Table.sorted_perm _)
  memory := rfl

end Snapshot

structure SnapshotCodec.Lawful (codec : SnapshotCodec) : Prop where
  read_write : ∀ {saved : Snapshot}, saved.Fits → ∃ again,
    codec.read? (codec.write saved) = some again ∧
      saved.Alike { again with memory := saved.memory }

theorem SnapshotCodec.json_lawful : SnapshotCodec.json.Lawful where
  read_write fits := ⟨_, Snapshot.read_state_text fits, Snapshot.alike_reread fits⟩

theorem Snapshot.of_to_archive {codec : SnapshotCodec} (lawful : codec.Lawful) {saved : Snapshot}
    (fits : saved.Fits) :
    ∃ again, Snapshot.ofArchive codec (saved.toArchive codec) = .ok again ∧ saved.Alike again := by
  have different : (memoryEntry == stateEntry) = false := by decide
  have different' : (stateEntry == memoryEntry) = false := by decide
  have state : (saved.toArchive codec).find? stateEntry = some (codec.write saved) := by
    unfold toArchive
    cases saved.memory <;> simp [Archive.find?, different]
  have memory : (saved.toArchive codec).find? memoryEntry = saved.memory := by
    unfold toArchive
    cases saved.memory <;> simp [Archive.find?, different']
  obtain ⟨again, read, alike⟩ := lawful.read_write fits
  simp only [ofArchive, state, read, memory]
  exact ⟨_, rfl, alike⟩

namespace Machine

variable {image : Image} {first fresh : Machine}

/-- A machine looks things up in a snapshot and does not see in which order they stand. -/
theorem restore_alike {saved again : Snapshot} (alike : saved.Alike again) (machine : Machine) :
    machine.restore image again = machine.restore image saved := by
  have symbols : differingSymbol? image again = differingSymbol? image saved := by
    simp only [differingSymbol?, alike.symbols]
  simp only [restore, symbols, alike.registers, alike.ip, alike.halted, alike.steps,
    alike.callStack, alike.memorySize, alike.memory]

theorem restore_to_archive {codec : SnapshotCodec} (lawful : codec.Lawful) {saved : Snapshot}
    (fits : saved.Fits) (machine : Machine) :
    machine.restoreArchive codec image (saved.toArchive codec) = machine.restore image saved := by
  obtain ⟨again, read, alike⟩ := Snapshot.of_to_archive lawful fits
  simp only [restoreArchive, read]
  exact restore_alike alike machine

theorem registers_named (machine : Machine) : (machine.snapshot image).registers.IsNamed where
  names := by
    have names : ∀ register ∈ Register.all, isName register.text = true := by decide +kernel
    intro entry member
    obtain ⟨register, inAll, rfl⟩ := List.mem_map.mp member
    exact names register inAll
  distinct := by
    have distinct : (Register.all.map Register.text).Nodup := by decide
    simpa [snapshot, Function.comp_def] using distinct

theorem saved_registers (machine : Machine) :
    (Registers.ofFunction fun register =>
      ((machine.snapshot image).registers.find? register.text).getD 0) = machine.registers := by
  have found (register : Register) :
      (machine.snapshot image).registers.find? register.text =
        some (machine.registers.get register) := by
    have inAll : register ∈ Register.all := by cases register <;> decide
    exact find_of_mem (@registers_named image machine).distinct
      (List.mem_map.mpr ⟨register, inAll, rfl⟩)
  simp only [found, Option.getD_some]
  rfl

theorem restored_frames (saved : Option (List Int)) :
    (restoredFrames saved).getD [] = (saved.getD []).reverse := by
  cases saved with
  | none => rfl
  | some indices => cases indices <;> simp [restoredFrames]

theorem restored_call_stack (frames : Option (List Int)) :
    (restoredFrames (frames.map List.reverse)).getD [] = frames.getD [] := by
  rw [restored_frames]
  cases frames <;> simp

/-- The state of a machine with the input and output of another one. -/
def movedTo (machine other : Machine) : Machine :=
  { machine with
    unread := other.unread
    written := other.written
    frames := restoredFrames (machine.frames.map List.reverse) }

theorem same_state_moved (machine other : Machine) : machine.SameState (machine.movedTo other) :=
  ⟨rfl, rfl, rfl, rfl, rfl, (restored_call_stack machine.frames).symm⟩

theorem differing_symbol_none {other : Image} (distinct : (other.symbols.map Prod.fst).Nodup)
    (placed : other.symbols.Within image.symbols) :
    differingSymbol? other (first.snapshot image) = none := by
  rw [differingSymbol?, Option.map_eq_none_iff, List.find?_eq_none]
  intro entry member
  have found : (first.snapshot image).symbols.find? entry.1 = some entry.2 :=
    placed entry.1 entry.2 (find_of_mem distinct member)
  simp [found]

theorem restore_placed {other : Image} (above : 0 ≤ first.ip)
    (below : first.ip ≤ other.program.instructions.size)
    (sameSize : first.memory.size = fresh.memory.size)
    (symbols : differingSymbol? other (first.snapshot image) = none) :
    fresh.restore other (first.snapshot image) = .ok (first.movedTo fresh) := by
  have inside : ¬(decide ((first.snapshot image).ip < 0) ||
      decide ((other.program.instructions.size : Int) < (first.snapshot image).ip)) = true := by
    rw [Bool.or_eq_true, decide_eq_true_eq, decide_eq_true_eq]
    exact not_or.mpr ⟨Int.not_lt.mpr above, Int.not_lt.mpr below⟩
  have size : (first.snapshot image).memorySize = fresh.memory.size :=
    congrArg Int.ofNat sameSize
  have memory : (first.snapshot image).memory = some first.memory.toList := rfl
  unfold restore
  rw [if_neg (not_not_intro size)]
  simp only [symbols, if_neg inside, memory]
  rw [if_neg (by simp [sameSize]), saved_registers]
  rfl

theorem restore_snapshot (above : 0 ≤ first.ip) (below : first.ip ≤ image.program.instructions.size)
    (sameSize : first.memory.size = fresh.memory.size)
    (distinct : (image.symbols.map Prod.fst).Nodup) :
    fresh.restore image (first.snapshot image) = .ok (first.movedTo fresh) := by
  apply restore_placed above below sameSize
  exact differing_symbol_none distinct (Table.Within.refl _)

end Machine
end ExprCompiler
