import ExprCompiler.Assembly.Listing
import ExprCompiler.Proofs.Table

/-!
What an accepted listing holds. Every label is a name and is defined once, a code label stands for
an instruction or for the end of the code, and instructions are no more than bytes of the listing.
-/

namespace ExprCompiler

/-- A table with one entry for every key, and names for keys. -/
structure Table.IsNamed {Entry : Type} (table : Table Entry) : Prop where
  names : ∀ entry ∈ table, isName entry.1 = true
  distinct : (table.map Prod.fst).Nodup

namespace Program

def dataLabels (program : Program) : List Bytes :=
  (program.constants ++ program.reservations).map DataItem.label

def defined (program : Program) : List Bytes := program.labels.map Prod.fst ++ program.dataLabels

structure Linked (room : Nat) (program : Program) : Prop where
  names : ∀ label ∈ program.defined, isName label = true
  distinct : program.defined.Nodup
  targets : ∀ entry ∈ program.labels, entry.2 ≤ program.instructions.size
  count : program.instructions.size ≤ room

variable {program grown : Program} {room more : Nat} {label : Bytes}

theorem Linked.mono (linked : program.Linked room) (enough : room ≤ more) :
    program.Linked more :=
  ⟨linked.names, linked.distinct, linked.targets, Nat.le_trans linked.count enough⟩

theorem Linked.add_label (linked : program.Linked room) (isName : isName label = true)
    (fresh : label ∉ program.defined) (grows : grown.defined.Perm (label :: program.defined))
    (targets : ∀ entry ∈ grown.labels, entry.2 ≤ grown.instructions.size)
    (same : grown.instructions = program.instructions) : grown.Linked room where
  names other member := by
    rcases List.mem_cons.mp (grows.mem_iff.mp member) with rfl | before
    · exact isName
    · exact linked.names other before
  distinct := grows.nodup_iff.mpr (List.nodup_cons.mpr ⟨fresh, linked.distinct⟩)
  targets := targets
  count := by
    rw [same]
    exact linked.count

theorem Linked.push (linked : program.Linked room) (instruction : Instruction) :
    { program with instructions := program.instructions.push instruction }.Linked (room + 1) where
  names := linked.names
  distinct := linked.distinct
  targets entry member := by
    have before := linked.targets entry member
    rw [Array.size_push]
    omega
  count := by
    have before := linked.count
    rw [Array.size_push]
    omega

end Program

namespace ListingReader

variable {reader after : ListingReader} {number room : Nat} {label line raw : Bytes}

/-- A label that was added is a name and new. It stands for code that may follow on its line, or
for the data there. -/
theorem add_labelled_cases (added : reader.addLabelled number label line = .ok after) :
    let known : ListingReader := { reader with defined := reader.defined ++ [(label, number)] }
    isName label = true ∧ reader.defined.find? label = none ∧
      (after = known.markCode label ∨
        (known.markCode label).addInstruction number line = .ok after ∨
        known.addData number label line = .ok after) := by
  intro known
  unfold addLabelled define at added
  split at added
  · cases added
  · rename_i named
    simp only [Bool.not_eq_true, Bool.not_eq_false'] at named
    split at added
    · cases added
    · rename_i extended defining
      split at defining
      · cases defining
      · rename_i fresh
        cases defining
        dsimp only at added
        refine ⟨named, fresh, ?_⟩
        split at added
        · split at added
          · cases added
            exact .inl rfl
          · exact .inr (.inl added)
        · split at added
          · cases added
          · exact .inr (.inr added)

/-- A line leaves code and labels alone, or starts with a label, or is an instruction. -/
theorem read_line_cases (read : reader.readLine number raw = .ok after) :
    (∃ place globals imports, after =
      { reader with
        place := place
        program := { reader.program with globals := globals, imports := imports } }) ∨
      raw ≠ [] ∧ ((∃ label line, reader.addLabelled number label line = .ok after) ∨
        ∃ line, reader.addInstruction number line = .ok after) := by
  unfold readLine at read
  dsimp only at read
  split at read
  · cases read
    exact .inl ⟨_, _, _, rfl⟩
  · rename_i content
    have some : raw ≠ [] := by
      rintro rfl
      exact content (by simp [withoutComment, Text.trim, Text.glyphs, Text.glyphBytes])
    split at read
    · split at read
      · cases read
        exact .inl ⟨_, _, _, rfl⟩
      · cases read
    · cases read
      exact .inl ⟨_, _, _, rfl⟩
    · cases read
      exact .inl ⟨_, _, _, rfl⟩
    · split at read
      · exact .inr ⟨some, .inl ⟨_, _, read⟩⟩
      · split at read
        · exact .inr ⟨some, .inr ⟨_, read⟩⟩
        · cases read

theorem add_instruction_cases (added : reader.addInstruction number line = .ok after) :
    ∃ instruction, readInstruction number line = .ok instruction ∧
      after = { reader with
        program := { reader.program with
          instructions := reader.program.instructions.push instruction } } := by
  unfold addInstruction at added
  split at added
  · cases added
  · rename_i instruction read
    cases added
    exact ⟨instruction, read, rfl⟩

/-- Data that were added stand behind those of their section: constants are bytes, and reservations
are zeros. -/
theorem add_data_cases (added : reader.addData number label line = .ok after) :
    (∃ content, after = { reader with
        program := { reader.program with
          constants := reader.program.constants ++ [⟨number, label, .bytes content⟩] } }) ∨
      ∃ count, after = { reader with
        program := { reader.program with
          reservations := reader.program.reservations ++ [⟨number, label, .zeros count⟩] } } := by
  unfold addData at added
  split at added
  · cases added
  · dsimp only at added
    split at added
    · cases added
      exact .inr ⟨_, rfl⟩
    · cases added
      exact .inl ⟨_, rfl⟩

theorem mark_code_defined (reader : ListingReader) (label : Bytes) :
    (reader.markCode label).program.defined.Perm (label :: reader.program.defined) := by
  simp only [markCode, Program.defined, Program.dataLabels, List.map_append, List.map_cons,
    List.map_nil]
  rw [List.append_assoc]
  exact List.perm_middle

theorem add_data_defined (added : reader.addData number label line = .ok after) :
    after.program.defined.Perm (label :: reader.program.defined) := by
  rcases add_data_cases added with ⟨content, rfl⟩ | ⟨count, rfl⟩ <;>
    simp only [Program.defined, Program.dataLabels, List.map_append, List.map_cons, List.map_nil,
      ← List.append_assoc]
  · rw [List.append_assoc]
    exact List.perm_middle
  · exact List.perm_append_singleton _ _

/-- What every line keeps holds after all lines. -/
theorem read_lines_keep {holds : Nat → ListingReader → Prop} {lines : List Bytes}
    (keep : ∀ {number reader raw after}, holds number reader →
      readLine reader number raw = .ok after → holds (number + 1) after)
    (start : holds number reader) (read : reader.readLines number lines = .ok after) :
    holds (number + lines.length) after := by
  induction lines generalizing reader number with
  | nil =>
      cases read
      exact start
  | cons line lines induction =>
      rw [readLines] at read
      split at read
      · cases read
      · rename_i next first
        have later := induction (keep start first) read
        rwa [Nat.add_right_comm] at later

structure Linked (room : Nat) (reader : ListingReader) : Prop where
  program : reader.program.Linked room
  known : ∀ label ∈ reader.program.defined, (reader.defined.find? label).isSome = true

theorem Linked.mono {more : Nat} (linked : reader.Linked room) (enough : room ≤ more) :
    reader.Linked more :=
  ⟨linked.program.mono enough, linked.known⟩

theorem Linked.add_instruction (linked : reader.Linked room)
    (added : reader.addInstruction number line = .ok after) : after.Linked (room + 1) := by
  obtain ⟨instruction, _, rfl⟩ := add_instruction_cases added
  exact ⟨linked.program.push instruction, linked.known⟩

theorem Linked.add_label {grown : Program} (linked : reader.Linked room) (isName : isName label = true)
    (fresh : reader.defined.find? label = none)
    (grows : grown.defined.Perm (label :: reader.program.defined))
    (targets : ∀ entry ∈ grown.labels, entry.2 ≤ grown.instructions.size)
    (same : grown.instructions = reader.program.instructions) (place : Section) :
    Linked room ⟨place, reader.defined ++ [(label, number)], grown⟩ where
  program := by
    apply linked.program.add_label isName _ grows targets same
    intro member
    have known := linked.known label member
    rw [fresh] at known
    cases known
  known other member := by
    rw [find_append, Option.isSome_or]
    rcases List.mem_cons.mp (grows.mem_iff.mp member) with rfl | before
    · simp [Table.find?]
    · simp [linked.known other before]

theorem Linked.add_data (linked : reader.Linked room) (isName : isName label = true)
    (fresh : reader.defined.find? label = none)
    (added : addData { reader with defined := reader.defined ++ [(label, number)] } number label
      line = .ok after) : after.Linked room := by
  have grows := add_data_defined added
  rcases add_data_cases added with ⟨content, rfl⟩ | ⟨count, rfl⟩ <;>
    exact linked.add_label isName fresh grows linked.program.targets rfl reader.place

theorem Linked.add_code (linked : reader.Linked room) (isName : isName label = true)
    (fresh : reader.defined.find? label = none) :
    (markCode { reader with defined := reader.defined ++ [(label, number)] } label).Linked room := by
  refine linked.add_label isName fresh (mark_code_defined _ label) ?_ rfl reader.place
  intro entry member
  rcases List.mem_append.mp member with before | last
  · exact linked.program.targets entry before
  · cases List.mem_singleton.mp last
    exact Nat.le_refl _

theorem Linked.add_labelled (linked : reader.Linked room)
    (added : reader.addLabelled number label line = .ok after) : after.Linked (room + 1) := by
  obtain ⟨isName, fresh, rfl | inCode | inData⟩ := add_labelled_cases added
  · exact (linked.add_code isName fresh).mono (Nat.le_succ _)
  · exact (linked.add_code isName fresh).add_instruction inCode
  · exact (linked.add_data isName fresh inData).mono (Nat.le_succ _)

/-- A line adds at most one instruction, and an empty line none. -/
theorem Linked.add_line (linked : reader.Linked room)
    (read : reader.readLine number raw = .ok after) : after.Linked (room + raw.length) := by
  rcases read_line_cases read with ⟨place, globals, imports, rfl⟩ | ⟨some, labelled | instruction⟩
  · exact Linked.mono ⟨⟨linked.program.names, linked.program.distinct, linked.program.targets,
      linked.program.count⟩, linked.known⟩ (Nat.le_add_right _ _)
  · obtain ⟨label, line, added⟩ := labelled
    exact (linked.add_labelled added).mono (Nat.add_le_add_left (List.length_pos_iff.mpr some) room)
  · obtain ⟨line, added⟩ := instruction
    exact (linked.add_instruction added).mono
      (Nat.add_le_add_left (List.length_pos_iff.mpr some) room)

theorem Linked.add_lines {lines : List Bytes} (linked : reader.Linked room)
    (read : reader.readLines number lines = .ok after) :
    after.Linked (room + lines.flatten.length) := by
  induction lines generalizing reader number room with
  | nil =>
      cases read
      exact linked
  | cons line lines induction =>
      rw [readLines] at read
      split at read
      · cases read
      · rename_i next first
        have later := induction (linked.add_line first) read
        rwa [List.flatten_cons, List.length_append, ← Nat.add_assoc]

end ListingReader

theorem Text.lines_total (text : Bytes) :
    (Text.lines text).flatten.length ≤ text.length := by
  have pieces (text piece : Bytes) :
      (splitFrom 10 piece text).flatten.length ≤ piece.length + text.length := by
    induction text generalizing piece with
    | nil => simp [splitFrom]
    | cons byte text induction =>
        rw [splitFrom, List.length_cons]
        split
        · have later := induction []
          simp only [List.flatten_cons, List.length_append, List.length_reverse]
          simp only [List.length_nil] at later
          omega
        · have later := induction (byte :: piece)
          simp only [List.length_cons] at later
          omega
  simpa [Text.lines, splitOn] using pieces text []

theorem read_listing_lines {text : Bytes} {program : Program}
    (read : readListing text = .ok program) :
    ∃ reader, ({} : ListingReader).readLines 1 (Text.lines text) = .ok reader ∧
      reader.program = program := by
  unfold readListing at read
  split at read
  · cases read
  · rename_i reader lines
    unfold ListingReader.finish at read
    split at read
    · cases read
    · cases read
      exact ⟨reader, lines, rfl⟩

theorem read_listing_linked {text : Bytes} {program : Program}
    (read : readListing text = .ok program) : program.Linked text.length := by
  obtain ⟨reader, lines, rfl⟩ := read_listing_lines read
  have start : ListingReader.Linked 0 {} := by
    refine ⟨⟨?_, List.nodup_nil, ?_, Nat.zero_le _⟩, ?_⟩ <;> intro entry member <;> cases member
  have linked := (start.add_lines lines).program
  exact linked.mono (by simpa using Text.lines_total text)

end ExprCompiler
