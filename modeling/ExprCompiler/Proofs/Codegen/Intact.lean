import ExprCompiler.Proofs.Codegen.NestedSum
import ExprCompiler.Proofs.Codegen.StackUse

/-!
The data of a program while it runs. As long as the stack pointer has not fallen below the end of
the data, every constant is as it was loaded and every cell holds what was last read into it; this
is so in all states when the depth of the tree fits between the data and the start of the stack.
The machine itself does not keep the stack off the data: a push is refused only outside memory, and
a sum that is nested deeply enough overwrites the format that its result is printed with.
-/

namespace ExprCompiler

-- Stores are told by their lemmas; comparing them byte by byte is slow.
attribute [local irreducible] Memory.store

def Core.scan? (core : Core) : Option (Word × Word) :=
  match core.argument 1, (scanWord core.unread).1 with
  | .ok place, .ok number => some (place, number)
  | _, _ => none

def rescanned (scan : Option (Word × Word)) (words : Word → Word) (place : Word) : Word :=
  match scan with
  | some (target, number) => if place = target then number else words place
  | none => words place

namespace Machine

/-- The input that a machine takes with its next step, if that calls the input routine. -/
def scan? (image : Image) (machine : Machine) : Option (Word × Word) :=
  match image.fetch? machine.ip with
  | some ⟨_, .call, [.label name]⟩ =>
      if machine.halted = false ∧ name = utf8 "scanf" then machine.toCore.scan? else none
  | _ => none

/-- What input has last stored at a place after some steps; zero where it has stored nothing. -/
def lastScanned (image : Image) (machine : Machine) : Nat → Word → Word
  | 0 => fun _ => 0
  | count + 1 =>
      rescanned ((machine.stepMany image count).1.scan? image) (lastScanned image machine count)

end Machine

/-- The constants of a program stand at their labels, and its cells hold the given words. -/
structure DataStands (image : Image) (memory : Memory) (words : Word → Word) : Prop where
  constants : ∀ item ∈ image.program.constants, ∃ address content,
    image.symbols.find? item.label = some address ∧ item.contents = .bytes content ∧
      memory.Holds address.toNat content
  cells : ∀ item ∈ image.program.reservations, ∃ address,
    image.symbols.find? item.label = some address ∧ memory.load address = words address

section Kept

variable {image : Image} {names : List Bytes} {limit floor : Nat} {start memory other : Memory}
variable {words : Word → Word}

/-- Memory whose data differ from those at the start in the cells only, which hold given words. -/
structure DataKept (image : Image) (names : List Bytes) (floor : Nat) (start memory : Memory)
    (words : Word → Word) : Prop where
  size : memory.size = start.size
  others : ∀ index < floor, (∀ name ∈ names, ∀ address, CellAt image name address →
      index < address.toNat ∨ address.toNat + 4 ≤ index) →
    memory.byte index = start.byte index
  cells : ∀ name ∈ names, ∀ address, CellAt image name address → memory.load address = words address

theorem Places.cell_below (places : Places image names limit floor) {name : Bytes} {address : Word}
    (member : name ∈ names) (placed : CellAt image name address) :
    limit ≤ address.toNat ∧ address.toNat + 4 ≤ floor := by
  obtain ⟨found, here, bounds⟩ := places.cell name member
  cases here.symm.trans placed
  exact bounds

theorem Places.apart (places : Places image names limit floor) :
    ∀ ⦃first⦄, first ∈ names → ∀ ⦃second⦄, second ∈ names → ∀ address place,
      CellAt image first address → CellAt image second place →
      address = place ∨ address.toNat + 4 ≤ place.toNat ∨ place.toNat + 4 ≤ address.toNat := by
  apply List.Pairwise.forall_of_forall_of_flip
  · intro name _ address place placed alsoPlaced
    exact .inl (Option.some.inj (placed.symm.trans alsoPlaced))
  · apply List.Pairwise.imp _ places.ordered
    intro first second before address place placed alsoPlaced
    exact .inr (.inl (before address place placed alsoPlaced))
  · apply List.Pairwise.imp _ places.ordered
    intro first second before address place placed alsoPlaced
    exact .inr (.inr (before place address alsoPlaced placed))

theorem DataKept.above (kept : DataKept image names floor start memory words)
    (places : Places image names limit floor) (size : other.size = memory.size)
    (same : ∀ index < floor, other.byte index = memory.byte index) :
    DataKept image names floor start other words where
  size := size.trans kept.size
  others := by
    intro index below outside
    rw [same index below]
    exact kept.others index below outside
  cells := by
    intro name member address placed
    rw [← kept.cells name member address placed]
    have bounds := places.cell_below member placed
    exact Memory.load_congr fun index _ inside => same index (by omega)

theorem DataKept.stored (kept : DataKept image names floor start memory words)
    (places : Places image names limit floor) {name : Bytes} {cell : Word} (member : name ∈ names)
    (placed : CellAt image name cell) (holds : memory.holdsWord cell = true) (number : Word) :
    DataKept image names floor start (memory.store cell number)
      (rescanned (some (cell, number)) words) where
  size := (Memory.size_store cell number).trans kept.size
  others := by
    intro index below outside
    rw [Memory.byte_store_other number holds (outside name member cell placed)]
    exact kept.others index below outside
  cells := by
    intro second alsoMember place alsoPlaced
    rcases places.apart alsoMember member place cell alsoPlaced placed with rfl | apart
    · rw [Memory.load_store number holds, rescanned, if_pos rfl]
    · have different : place ≠ cell := by
        rintro rfl
        omega
      rw [rescanned, if_neg different, ← kept.cells second alsoMember place alsoPlaced]
      apply Memory.load_congr
      intro index above inside
      exact Memory.byte_store_other number holds (by omega)

theorem DataKept.texts (kept : DataKept image names floor start memory words)
    (places : Places image names limit floor) (texts : Texts image names limit start) :
    Texts image names limit memory := by
  apply texts.congr
  intro index below
  apply kept.others index (Nat.lt_of_lt_of_le below places.low)
  intro name member address placed
  have bounds := places.cell_below member placed
  exact .inl (by omega)

end Kept

section Phases

/-- Where a program stands that starts with the stack pointer at `base` and asks for variables
before it goes on with `tail`: on the way to the next question, with the cell to read into on the
stack, with the format above it, behind the answer, or in the rest of the program. -/
inductive Phase (image : Image) (names : List Bytes) (base : Word) (tail lines : List Line)
    (core : Core) : Prop where
  | saying {height : Int} {before : List Line} {name : Bytes} {left : List Bytes}
      (here : lines = before ++ (askLines name ++ (left.flatMap readLines ++ tail)))
      (tidy : ∀ line ∈ before, line.isTidy = true) (balanced : height + totalBytes before = 0)
      (esp : core.registers.esp = base - BitVec.ofInt 32 height) (member : name ∈ names)
      (known : ∀ other ∈ left, other ∈ names)
  | aimed {start : Core} {cell : Word} {name : Bytes} {left : List Bytes}
      (here : lines = (askLines name).drop 1 ++ (left.flatMap readLines ++ tail))
      (pushed : core = start.pushed cell) (esp : start.registers.esp = base)
      (inside : base.toNat ≤ start.memory.size) (placed : CellAt image name cell)
      (member : name ∈ names) (known : ∀ other ∈ left, other ∈ names)
  | armed {start : Core} {cell format : Word} {name : Bytes} {left : List Bytes}
      (here : lines = (askLines name).drop 2 ++ (left.flatMap readLines ++ tail))
      (pushed : core = (start.pushed cell).pushed format) (esp : start.registers.esp = base)
      (inside : base.toNat ≤ start.memory.size) (placed : CellAt image name cell)
      (named : image.symbols.find? (utf8 "read_format") = some format)
      (member : name ∈ names) (known : ∀ other ∈ left, other ∈ names)
  | answered {left : List Bytes}
      (here : lines = Line.release 8 :: (left.flatMap readLines ++ tail))
      (esp : core.registers.esp = base - 8) (known : ∀ other ∈ left, other ∈ names)
  | finishing (here : ∀ line ∈ lines, line ∈ tail)

variable {image : Image} {names left : List Bytes} {base : Word} {tail rest : List Line}
variable {line : Line} {core after : Core}

/-- Between two questions the stack is as it was at the start. -/
theorem Phase.ready (esp : core.registers.esp = base) (known : ∀ other ∈ left, other ∈ names) :
    Phase image names base tail (left.flatMap readLines ++ tail) core := by
  cases left with
  | nil => exact .finishing fun line member => member
  | cons name left =>
      apply @Phase.saying _ _ _ _ _ _ 0 [Line.pushLabel (promptLabel name),
        Line.call (utf8 "printf"), Line.release 4] name left
      · rw [List.flatMap_cons, List.append_assoc]
        rfl
      · simp [Line.pushLabel, Line.call, Line.release, Line.op, Line.isTidy]
      · rfl
      · rw [esp]
        exact (BitVec.sub_zero _).symm
      · exact known name (by simp)
      · exact fun other member => known other (by simp [member])

variable {limit floor : Nat} {start : Core} {words : Word → Word}

theorem kept_tidy (prepared : Prepared image names limit floor start) (tidy : line.isTidy = true)
    (kept : DataKept image names floor start.memory core.memory words)
    (performed : image.perform line core = ⟨after, none⟩) (above : floor ≤ after.top) :
    DataKept image names floor start.memory after.memory
      (rescanned (if line = Line.call (utf8 "scanf") then core.scan? else none) words) := by
  have other : line ≠ Line.call (utf8 "scanf") := by
    rintro rfl
    exact absurd tidy (by decide)
  have spares := spares_line prepared.standard tidy performed
  rw [if_neg other]
  apply kept.above prepared.places spares.size
  intro index below
  exact spares.below index (by omega)

theorem phase_saying {height : Int} {name : Bytes} {before : List Line}
    (prepared : Prepared image names limit floor start)
    (kept : DataKept image names floor start.memory core.memory words)
    (here : line :: rest = before ++ (askLines name ++ (left.flatMap readLines ++ tail)))
    (tidy : ∀ line ∈ before, line.isTidy = true) (balanced : height + totalBytes before = 0)
    (esp : core.registers.esp = start.registers.esp - BitVec.ofInt 32 height)
    (member : name ∈ names) (known : ∀ other ∈ left, other ∈ names)
    (performed : image.perform line core = ⟨after, none⟩) :
    line.isTidy = true ∧ Phase image names start.registers.esp tail rest after := by
  cases before with
  | cons first before =>
      obtain ⟨rfl, rfl⟩ := List.cons.inj here
      have spares := spares_line prepared.standard (tidy line (by simp)) performed
      refine ⟨tidy line (by simp), ?_⟩
      apply @Phase.saying _ _ _ _ _ _ (height + line.stackBytes) before name left rfl
      · exact fun other inBefore => tidy other (by simp [inBefore])
      · rw [totalBytes, ← Int.add_assoc] at balanced
        exact balanced
      · rw [spares.esp, esp, BitVec.ofInt_add]
        bv_omega
      · exact member
      · exact known
  | nil =>
      obtain ⟨rfl, rfl⟩ := List.cons.inj here
      obtain ⟨cell, placed, _, _⟩ := prepared.places.cell name member
      obtain rfl : height = 0 := by simpa [totalBytes] using balanced
      have same : core.registers.esp = start.registers.esp := by
        rw [esp]
        exact BitVec.sub_zero _
      have top : core.top = start.top := congrArg BitVec.toNat same
      have room := prepared.room
      have inside := prepared.inside
      have size := kept.size
      have pushing := @perform_push_label image core _ _ placed (by omega) (by omega)
      cases performed.symm.trans pushing
      refine ⟨rfl, ?_⟩
      apply Phase.aimed _ rfl same _ placed member known
      · rfl
      · rw [size]
        exact inside

theorem phase_aimed {name : Bytes} {cell : Word} {empty : Core}
    (prepared : Prepared image names limit floor start)
    (here : line :: rest = (askLines name).drop 1 ++ (left.flatMap readLines ++ tail))
    (esp : empty.registers.esp = start.registers.esp)
    (inside : start.registers.esp.toNat ≤ empty.memory.size) (placed : CellAt image name cell)
    (member : name ∈ names) (known : ∀ other ∈ left, other ∈ names)
    (performed : image.perform line (empty.pushed cell) = ⟨after, none⟩) :
    line.isTidy = true ∧ Phase image names start.registers.esp tail rest after := by
  obtain ⟨rfl, rfl⟩ := List.cons.inj here
  obtain ⟨format, named, _, _⟩ := prepared.texts.readFormat
  have room := prepared.room
  have top : empty.top = start.top := congrArg BitVec.toNat esp
  have pushedTop := @Core.top_pushed empty (by omega) cell
  have within : empty.top ≤ empty.memory.size := by
    rw [top]
    exact inside
  have pushing := @perform_push_label image (empty.pushed cell) _ _ named (by omega)
    (by rw [Core.size_pushed]; omega)
  cases performed.symm.trans pushing
  refine ⟨rfl, ?_⟩
  apply Phase.armed _ rfl esp inside placed named member known
  rfl

/-- The one line of a program that writes to the data. -/
theorem phase_armed {name : Bytes} {cell format : Word} {empty : Core}
    (prepared : Prepared image names limit floor start)
    (kept : DataKept image names floor start.memory ((empty.pushed cell).pushed format).memory words)
    (here : line :: rest = (askLines name).drop 2 ++ (left.flatMap readLines ++ tail))
    (esp : empty.registers.esp = start.registers.esp)
    (inside : start.registers.esp.toNat ≤ empty.memory.size) (placed : CellAt image name cell)
    (named : image.symbols.find? (utf8 "read_format") = some format)
    (member : name ∈ names) (known : ∀ other ∈ left, other ∈ names)
    (performed : image.perform line ((empty.pushed cell).pushed format) = ⟨after, none⟩) :
    Phase image names start.registers.esp tail rest after ∧
      DataKept image names floor start.memory after.memory
        (rescanned (if line = Line.call (utf8 "scanf") then
          ((empty.pushed cell).pushed format).scan? else none) words) := by
  obtain ⟨rfl, rfl⟩ := List.cons.inj here
  have room := prepared.room
  have top : empty.top = start.top := congrArg BitVec.toNat esp
  have within : empty.top ≤ empty.memory.size := by
    rw [top]
    exact inside
  obtain ⟨keeps, first, second⟩ := @two_arguments empty floor (by omega) within cell format
  have armedEsp : ((empty.pushed cell).pushed format).registers.esp = start.registers.esp - 8 := by
    change empty.registers.esp - 4 - 4 = _
    rw [esp]
    bv_omega
  generalize (empty.pushed cell).pushed format = ready at *
  have bounds := prepared.places.cell_below member placed
  have holds : ready.memory.holdsWord cell = true := by
    rw [Memory.holdsWord, decide_eq_true_eq, keeps.size]
    omega
  obtain ⟨address, found, text⟩ := @text_stands image ready floor limit _ _
    (kept.texts prepared.places prepared.texts).readFormat (by decide) prepared.places.low
    (by rw [keeps.size]; omega)
  cases named.symm.trans found
  have scanned := scan_effect first (text ready (Keeps.refl ready)) second holds
  have performing : scanRoutine ready = ⟨after, none⟩ :=
    (perform_scan prepared.standard).symm.trans performed
  rw [scanned] at performing
  rw [if_pos rfl, Core.scan?, second]
  cases scan : scanWord ready.unread with
  | mk result rest =>
      rw [scan] at performing
      cases result with
      | error problem => cases performing
      | ok number =>
          cases performing
          exact ⟨.answered rfl armedEsp known, kept.stored prepared.places member placed holds number⟩

/-- What the next line does to the data, and the phase behind it. -/
theorem phase_line (prepared : Prepared image names limit floor start)
    (tidy : ∀ line ∈ tail, line.isTidy = true)
    (phase : Phase image names start.registers.esp tail (line :: rest) core)
    (kept : DataKept image names floor start.memory core.memory words)
    (performed : image.perform line core = ⟨after, none⟩) (above : floor ≤ after.top) :
    Phase image names start.registers.esp tail rest after ∧
      DataKept image names floor start.memory after.memory
        (rescanned (if line = Line.call (utf8 "scanf") then core.scan? else none) words) := by
  have spared {next : Prop} (both : line.isTidy = true ∧ next) :=
    And.intro both.2 (kept_tidy prepared both.1 kept performed above)
  cases phase with
  | saying here beforeTidy balanced esp member known =>
      exact spared (phase_saying prepared kept here beforeTidy balanced esp member known performed)
  | aimed here pushed esp inside placed member known =>
      subst pushed
      exact spared (phase_aimed prepared here esp inside placed member known performed)
  | armed here pushed esp inside placed named member known =>
      subst pushed
      exact phase_armed prepared kept here esp inside placed named member known performed
  | answered here esp known =>
      apply spared
      obtain ⟨rfl, rfl⟩ := List.cons.inj here
      refine ⟨rfl, ?_⟩
      cases performed
      apply Phase.ready _ known
      simp only [Core.set, Core.get, Registers.set, Registers.get, esp]
      bv_omega
  | finishing here =>
      apply spared
      exact ⟨tidy line (here line (by simp)), .finishing fun other inRest => here other (by simp [inRest])⟩

end Phases

section Reached

variable {image : Image} {code rest : List Line} {line : Line} {machine after : Machine}

theorem scan_facing (program : image.RunsStraight code) (facing : machine.Facing code (line :: rest)) :
    machine.scan? image =
      if line = Line.call (utf8 "scanf") then machine.toCore.scan? else none := by
  have fetched := Machine.fetch_facing program facing
  cases line with
  | instruction mnemonic operands =>
      obtain ⟨number, here⟩ := fetched
      rw [Machine.scan?, here]
      split
      · rename_i name same
        cases same
        by_cases isScan : name = utf8 "scanf"
        · subst isScan
          rw [if_pos ⟨facing.running, rfl⟩]
          exact (if_pos rfl).symm
        · rw [if_neg fun both => isScan both.2, if_neg]
          intro same
          cases same
          exact isScan rfl
      · rename_i noCall
        rw [if_neg]
        intro same
        cases same
        exact noCall number (utf8 "scanf") rfl
  | _ => cases fetched

theorem scan_behind (program : image.RunsStraight code)
    (behind : machine.Facing code [] ∨ machine.halted = true) : machine.scan? image = none := by
  rcases behind with facing | halted
  · obtain ⟨number, fetched⟩ := Machine.fetch_facing program facing
    rw [Machine.scan?, fetched]
  · unfold Machine.scan?
    split
    · rw [halted]
      simp
    · rfl

variable {names : List Bytes} {body : List Line} {limit floor count : Nat}

/-- In all states up to which the stack stayed above the data, the data are as they should be. -/
theorem data_kept_reached (program : image.RunsStraight (mainLines names body))
    (prepared : Prepared image names limit floor machine.toCore)
    (tidy : ∀ line ∈ body, line.isTidy = true)
    (fresh : machine.Facing (mainLines names body) (mainLines names body))
    (zero : ∀ name ∈ names, ∀ address, CellAt image name address →
      machine.memory.load address = 0)
    (reached : machine.stepMany image count = (after, none))
    (above : ∀ earlier ≤ count, floor ≤ (machine.stepMany image earlier).1.top) :
    DataKept image names floor machine.memory after.memory (machine.lastScanned image count) := by
  have tailTidy : ∀ line ∈ body ++ answerLines, line.isTidy = true := by
    intro line member
    rcases List.mem_append.mp member with inBody | inAnswer
    · exact tidy line inBody
    · exact answer_lines_tidy line inAnswer
  have held : ∃ rest, (∀ earlier ≤ count, floor ≤ (machine.stepMany image earlier).1.top) →
      Phase image names machine.registers.esp (body ++ answerLines) rest after.toCore ∧
        DataKept image names floor machine.memory after.memory
          (machine.lastScanned image count) := by
    apply Machine.steps_keep (fun count rest core =>
      (∀ earlier ≤ count, floor ≤ (machine.stepMany image earlier).1.top) →
        Phase image names machine.registers.esp (body ++ answerLines) rest core ∧
          DataKept image names floor machine.memory core.memory (machine.lastScanned image count))
      program fresh _ _ _ reached
    · intro _
      exact ⟨.ready rfl fun _ member => member, rfl, fun _ _ _ => rfl, zero⟩
    · intro count line rest before next earlier facing later performed hold clear
      obtain ⟨phase, kept⟩ := hold fun place low => clear place (by omega)
      have top := clear (count + 1) (Nat.le_refl _)
      rw [later] at top
      have result := phase_line prepared tailTidy phase kept performed top
      rw [← scan_facing program facing] at result
      rw [Machine.lastScanned, earlier]
      exact result
    · intro count before earlier behind hold clear
      have result := hold fun place low => clear place (by omega)
      rw [Machine.lastScanned, earlier, scan_behind program behind]
      exact result
  obtain ⟨rest, hold⟩ := held
  exact (hold above).2

end Reached

section Arranged

variable {code : List Line} {names : List Bytes} {options : MachineOptions} {loaded : Loaded}
variable {constants cells : List Placed}

structure Arranged (loaded : Loaded) (names : List Bytes) (constants cells : List Placed) : Prop where
  laid : Laid loaded (constants ++ cells)
  texts : constants.map Placed.item = loaded.image.program.constants
  reserved : cells.map Placed.item = loaded.image.program.reservations
  isText : ∀ one ∈ constants, ∃ content, one.item.contents = .bytes content
  isCell : ∀ one ∈ cells, ∃ name ∈ names, one.item.label = variableLabel name ∧
    one.item.contents = .zeros 4
  cell : ∀ name ∈ names, ∃ one ∈ cells, one.item.label = variableLabel name

theorem arranged_of_load (load : (generatedProgram code names).load options = .ok loaded)
    (distinct : names.Nodup) :
    ∃ constants cells, Arranged loaded names constants cells ∧ loaded.machine.memory =
      (constants ++ cells).foldl Placed.storeIn (Memory.zeros options.size) := by
  obtain ⟨placed, laid, memory, _⟩ := laid_in_memory load (generated_labels_distinct code distinct)
  have program := (loaded_program load).1
  have items := laid.items
  rw [List.map_eq_append_iff] at items
  obtain ⟨constants, cells, rfl, texts, reserved⟩ := items
  refine ⟨constants, cells, ⟨laid, texts, reserved, ?_, ?_, ?_⟩, memory⟩
  · intro one member
    have inItems : one.item ∈ formatItems (7 + code.length) names := by
      have mapped := @List.mem_map_of_mem _ _ _ _ Placed.item member
      rwa [texts, program] at mapped
    rcases List.mem_cons.mp inItems with same | later
    · exact ⟨_, congrArg DataItem.contents same⟩
    · rcases List.mem_cons.mp later with same | prompt
      · exact ⟨_, congrArg DataItem.contents same⟩
      · obtain ⟨name, _, _, contents⟩ := mem_items_from prompt
        exact ⟨_, contents⟩
  · intro one member
    have inItems : one.item ∈ cellItems (10 + code.length + names.length) names := by
      have mapped := @List.mem_map_of_mem _ _ _ _ Placed.item member
      rwa [reserved, program] at mapped
    exact mem_items_from inItems
  · intro name member
    obtain ⟨item, inItems, label, _⟩ := @mem_items_of_name names variableLabel (fun _ => .zeros 4)
      (10 + code.length + names.length) name member
    have inCells : item ∈ cells.map Placed.item := by
      rw [reserved, program]
      exact inItems
    obtain ⟨one, inPlaces, rfl⟩ := List.mem_map.mp inCells
    exact ⟨one, inPlaces, label⟩

theorem Arranged.place (arranged : Arranged loaded names constants cells) {name : Bytes}
    {address : Word} (member : name ∈ names) (placed : CellAt loaded.image name address) :
    ∃ one ∈ cells, address.toNat = one.address ∧ one.finish = one.address + 4 := by
  obtain ⟨one, inCells, label⟩ := arranged.cell name member
  obtain ⟨found, here, same⟩ := arranged.laid.symbol one (List.mem_append_right _ inCells)
  obtain ⟨_, _, _, contents⟩ := arranged.isCell one inCells
  rw [label] at here
  cases here.symm.trans placed
  refine ⟨one, inCells, same, ?_⟩
  rw [Placed.finish, DataItem.size, contents, Contents.size]

theorem Arranged.cells_zero (arranged : Arranged loaded names constants cells)
    (memory : loaded.machine.memory =
      (constants ++ cells).foldl Placed.storeIn (Memory.zeros options.size))
    (inside : ∀ one ∈ constants ++ cells, one.finish ≤ options.size) :
    ∀ name ∈ names, ∀ address, CellAt loaded.image name address →
      loaded.machine.memory.load address = 0 := by
  intro name member address placed
  obtain ⟨own, inCells, same, size⟩ := arranged.place member placed
  have before := (List.pairwise_append.mp arranged.laid.ordered).2.2
  have zero : loaded.machine.memory.load address = (Memory.zeros options.size).load address := by
    apply Memory.load_congr
    intro index above below
    rw [memory]
    apply Placed.byte_store_all_free
    · intro one inPlaces
      rw [Memory.zeros, Array.size_replicate]
      exact inside one inPlaces
    · intro one inPlaces
      rcases List.mem_append.mp inPlaces with inConstants | isReserved
      · have ends := before one inConstants own inCells
        exact .inr (.inr (by omega))
      · obtain ⟨_, _, _, contents⟩ := arranged.isCell one isReserved
        exact .inl ⟨4, contents⟩
  rw [zero]
  simp [Memory.load, byte_zeros]

theorem Arranged.data_stands (arranged : Arranged loaded names constants cells) {memory : Memory}
    {words : Word → Word}
    (kept : DataKept loaded.image names loaded.image.dataEnd loaded.machine.memory memory words) :
    DataStands loaded.image memory words := by
  have before := (List.pairwise_append.mp arranged.laid.ordered).2.2
  constructor
  · intro item member
    rw [← arranged.texts] at member
    obtain ⟨one, inConstants, rfl⟩ := List.mem_map.mp member
    have inPlaces := List.mem_append_left cells inConstants
    obtain ⟨address, found, same⟩ := arranged.laid.symbol one inPlaces
    obtain ⟨content, contents⟩ := arranged.isText one inConstants
    have ends := arranged.laid.ends one inPlaces
    have finish : one.finish = one.address + content.length := by
      rw [Placed.finish, DataItem.size, contents, Contents.size]
    refine ⟨address, content, found, contents, ?_⟩
    rw [same]
    apply (arranged.laid.holds one inPlaces content contents).congr
    intro place above below
    apply kept.others place (by omega)
    intro name inNames cell placed
    obtain ⟨other, inCells, cellPlace, _⟩ := arranged.place inNames placed
    have apart := before one inConstants other inCells
    exact .inl (by omega)
  · intro item member
    rw [← arranged.reserved] at member
    obtain ⟨one, inCells, rfl⟩ := List.mem_map.mp member
    obtain ⟨address, found, _⟩ := arranged.laid.symbol one (List.mem_append_right _ inCells)
    obtain ⟨name, inNames, label, _⟩ := arranged.isCell one inCells
    refine ⟨address, found, ?_⟩
    apply kept.cells name inNames
    rw [CellAt, ← label]
    exact found

end Arranged

section Compiled

variable {options : CompileOptions} {source listing : Bytes} {output : Output}
variable {machine : MachineOptions} {loaded : Loaded}

/-- Data take the lower half of memory at most, which leaves room for the words of a call. -/
theorem call_room {code : List Line} {names : List Bytes}
    (load : (generatedProgram code names).load machine = .ok loaded) (distinct : names.Nodup) :
    loaded.image.dataEnd + 8 ≤ loaded.image.stackTop := by
  obtain ⟨constants, cells, arranged, _⟩ := arranged_of_load load distinct
  obtain ⟨placed, items, chained, image, _⟩ := load_cases load
  have half : dataStart ≤ loaded.image.stackTop / 2 := by
    cases placed with
    | nil => cases items
    | cons first rest =>
        have above := chained.above first (by simp)
        have below := chained.below first (by simp)
        rw [image]
        exact Nat.le_trans above (Nat.le_trans (Nat.le_add_right _ _) below)
  have ends := arranged.laid.data_end
  have start : dataStart = 4096 := rfl
  omega

/-- A push is refused when its word lies outside memory, and for nothing else. -/
theorem push_refused {image : Image} {state : Machine} {number : Nat} {operand : Operand}
    {word : Word} (running : state.halted = false)
    (next : image.fetch? state.ip = some ⟨number, .push, [operand]⟩)
    (loads : image.load state.toCore operand = .ok word) (limit : state.steps < image.stepLimit) :
    (state.step image).2 = none ↔ state.memory.holdsWord (state.registers.esp - 4) = true := by
  have calls : image.Calls (.instruction .push [operand]) := by
    intro name called
    cases called
  have performed : image.perform (.instruction .push [operand]) state.toCore =
      state.toCore.push word := by
    change image.withWord state.toCore operand state.toCore.push = _
    rw [Image.withWord, loads]
  rw [Machine.step_straight running next limit rfl calls, performed, Core.push, Core.write]
  have same : (state.toCore.set .esp (state.toCore.get .esp - 4)).memory = state.memory := rfl
  have address : state.toCore.get .esp - 4 = state.registers.esp - 4 := rfl
  rw [same, address]
  by_cases holds : state.memory.holdsWord (state.registers.esp - 4) = true
  · rw [if_pos holds]
    exact iff_of_true rfl holds
  · rw [if_neg holds]
    exact iff_of_false (Option.some_ne_none _) holds

/-- The data of a compiled program in every state before the first failure: as they should be as
long as the stack has not fallen below them, which it does not when it has room for the depth of
the tree. Nothing else keeps it off the data, since every push inside memory succeeds. -/
theorem compiled_data_intact (lawful : options.charsets.Lawful)
    (compiled : compile options source = .ok output)
    (held : output.assembly.Holds options.charsets listing)
    (load : loadListing listing machine = .ok loaded)
    (standard : machine.routines = standardRoutines) {count : Nat} {after : Machine}
    (reached : loaded.machine.stepMany loaded.image count = (after, none)) :
    ((∀ earlier ≤ count,
        loaded.image.dataEnd ≤ (loaded.machine.stepMany loaded.image earlier).1.top) →
      DataStands loaded.image after.memory (loaded.machine.lastScanned loaded.image count)) ∧
    (loaded.image.dataEnd + 4 * output.folded.stackDepth ≤ loaded.image.stackTop →
      ∀ earlier ≤ count,
        loaded.image.dataEnd ≤ (loaded.machine.stepMany loaded.image earlier).1.top) ∧
    (∀ number operand word, after.halted = false →
      loaded.image.fetch? after.ip = some ⟨number, .push, [operand]⟩ →
      loaded.image.load after.toCore operand = .ok word → after.steps < loaded.image.stepLimit →
      ((after.step loaded.image).2 = none ↔
        after.memory.holdsWord (after.registers.esp - 4) = true)) := by
  have loading := load_compiled lawful compiled held load
  have arithmetic := compiled_arithmetic compiled
  obtain ⟨identifiers, distinct⟩ := compiled_names compiled
  have plain := tree_lines_plain options.toCodegenOptions arithmetic
  have tidy := tree_lines_tidy options.toCodegenOptions arithmetic
  have program := runs_straight_main plain loading
  have fresh := Machine.facing_main loading
  obtain ⟨_, routines, start, top, inside, _⟩ := loaded_program loading
  have calls := call_room loading distinct
  refine ⟨?_, ?_, ?_⟩
  · intro above
    obtain ⟨limit, texts, places⟩ := generated_data loading distinct
    have prepared : Prepared loaded.image output.variableNames limit loaded.image.dataEnd
        loaded.machine.toCore :=
      ⟨routines.trans standard, identifiers, texts, places, by omega, by omega⟩
    obtain ⟨constants, cells, arranged, memory⟩ := arranged_of_load loading distinct
    apply arranged.data_stands
    apply data_kept_reached program prepared tidy fresh _ reached above
    apply arranged.cells_zero memory
    intro one member
    have below := arranged.laid.below one member
    have fits := stack_top_inside machine
    omega
  · intro room earlier before
    obtain ⟨middle, reachedMiddle⟩ := Machine.step_many_earlier reached before
    have within := @within_main output.variableNames _ _
      (deepens_tree_lines options.toCodegenOptions arithmetic)
    have bound := @stack_within loaded.image _ loaded.machine middle earlier
      (4 * max 2 output.folded.stackDepth) program (routines.trans standard)
      (main_lines_measured tidy) fresh (by simpa using within) (by omega) reachedMiddle
    rw [reachedMiddle]
    change loaded.image.dataEnd ≤ middle.top
    omega
  · intro number operand word running next loads limit
    exact push_refused running next loads limit

theorem compiled_reaches (lawful : options.charsets.Lawful)
    (compiled : compile options source = .ok output)
    (held : output.assembly.Holds options.charsets listing)
    (load : loadListing listing machine = .ok loaded) {taken rest : List Line}
    {core : Core}
    (split : mainLines output.variableNames (treeLines options.toCodegenOptions output.folded) =
      taken ++ rest)
    (limit : taken.length ≤ loaded.image.stepLimit)
    (performed : loaded.image.performAll taken loaded.machine.toCore = ⟨core, none⟩) :
    ∃ after, loaded.machine.stepMany loaded.image taken.length = (after, none) ∧
      after.toCore = core := by
  have loading := load_compiled lawful compiled held load
  have plain := tree_lines_plain options.toCodegenOptions (compiled_arithmetic compiled)
  have facing : loaded.machine.Facing (mainLines output.variableNames
      (treeLines options.toCodegenOptions output.folded)) (taken ++ rest) := by
    rw [← split]
    exact Machine.facing_main loading
  obtain ⟨_, _, _, _, start⟩ := load_cases loading
  have steps : loaded.machine.steps = 0 := by rw [start]
  apply Machine.step_many_taken (runs_straight_main plain loading) facing _ performed
  omega

theorem square_data_intact :
    ∃ output loaded after, compile {} (utf8 "a*a") = .ok output ∧
      loadListing output.assembly.bytes { input := utf8 "7" } = .ok loaded ∧
      loaded.machine.stepMany loaded.image 7 = (after, none) ∧
      DataStands loaded.image after.memory (loaded.machine.lastScanned loaded.image 7) := by
  obtain ⟨output, loaded, compiled, load, enough, named⟩ := @loaded_of_check {} (utf8 "a*a")
    { input := utf8 "7" } (fun output => output.variableNames = [utf8 "a"])
    (CharsetRegistry.resolve_canonical .utf8) (by decide +kernel)
  have names : output.variableNames = [utf8 "a"] := of_decide_eq_true named
  have scanned : scanWords 1 (utf8 "7") = ⟨[7], none⟩ := by decide +kernel
  have lawful := CharsetRegistry.common_lawful
  have room := enough.room
  have size := compiled_size lawful compiled (.inl rfl) load
  obtain ⟨_, prepared⟩ := prepared_compiled lawful compiled (.inl rfl) load rfl enough.room
  obtain ⟨_, _, _, _, _, unread, _⟩ :=
    loaded_program (load_compiled lawful compiled (.inl rfl) load)
  have quiet := prepared.reads.fault
  rw [unread, names, List.length_singleton, scanned] at quiet
  cases asked : loaded.image.performAll ([utf8 "a"].flatMap readLines) loaded.machine.toCore with
  | mk core fault =>
      rw [asked] at quiet
      cases quiet
      have length : ([utf8 "a"].flatMap readLines).length = 7 := rfl
      rw [names, mainLines, List.length_append, length] at size
      have limit := enough.limit
      obtain ⟨after, reached, _⟩ := compiled_reaches lawful compiled (.inl rfl) load
        (by rw [names]; rfl) (by omega) asked
      have intact := compiled_data_intact lawful compiled (.inl rfl) load rfl reached
      exact ⟨output, loaded, after, compiled, load, reached, intact.1 (intact.2.1 (by omega))⟩

theorem smallest_load (code : List Line) :
    ∃ loaded, (generatedProgram code []).load { memorySize := 8208 } = .ok loaded ∧
      loaded.image.stackTop = 8208 ∧ loaded.image.stepLimit = 1000000 ∧
      loaded.image.symbols.find? (utf8 "write_format") = some 4100 := by
  have placing : layout (({ memorySize := 8208 } : MachineOptions).stackTop / 2)
      (generatedProgram code []) =
        .ok [⟨⟨7 + code.length, utf8 "read_format", .bytes (utf8 "%d" ++ [0])⟩, 4096⟩,
          ⟨⟨7 + code.length + 1, utf8 "write_format", .bytes (utf8 "%d" ++ [10, 0])⟩, 4100⟩] := by
    have room : ({ memorySize := 8208 } : MachineOptions).stackTop / 2 = 4104 := by decide
    have letters : (utf8 "%d").length = 2 := by decide
    simp [room, letters, layout, generatedProgram, formatItems, cellItems, itemsFrom, placeItems,
      Placed.finish, DataItem.size, Contents.size, alignUp, dataStart]
  rw [Program.load, placing]
  exact ⟨_, rfl, rfl, rfl, rfl⟩

/-- A sum nested so deeply that its ones reach the format for the result, without any failure. -/
theorem nested_sum_overwrites_format :
    ∃ output loaded after,
      compile { fold := false, peephole := false } (nestedSum 1026) = .ok output ∧
      loadListing output.assembly.bytes { memorySize := 8208 } = .ok loaded ∧
      loaded.machine.stepMany loaded.image 1027 = (after, none) ∧
      ¬DataStands loaded.image after.memory (loaded.machine.lastScanned loaded.image 1027) := by
  obtain ⟨output, compiled, isSum, names, read⟩ := nested_compiled 1026
  obtain ⟨loaded, loading, stackTop, limit, symbol⟩ := smallest_load
    (programCode { peephole := false } [] output.folded)
  have load : loadListing output.assembly.bytes { memorySize := 8208 } = .ok loaded := by
    rw [loadListing, read, names]
    exact loading
  obtain ⟨program, _, _, top, inside, _⟩ := loaded_program loading
  obtain ⟨later, code⟩ := nested_code isSum .sign
  obtain ⟨core, performed, lowered, size, word⟩ := @perform_ones loaded.image
    loaded.machine.toCore 1027 (by omega) (by omega)
  have split : mainLines output.variableNames (treeLines { peephole := false } output.folded) =
      List.replicate 1027 (Line.op .push [.immediate 1]) ++ (later ++ answerLines) := by
    rw [names, ← List.append_assoc, ← code]
    rfl
  obtain ⟨after, reached, same⟩ := compiled_reaches CharsetRegistry.common_lawful compiled
    (.inl rfl) load split (by rw [List.length_replicate, limit]; decide) performed
  rw [List.length_replicate] at reached
  refine ⟨output, loaded, after, compiled, load, reached, ?_⟩
  intro stands
  have item : ⟨7 + (programCode { peephole := false } [] output.folded).length + 1,
      utf8 "write_format", .bytes (utf8 "%d" ++ [10, 0])⟩ ∈ loaded.image.program.constants := by
    rw [program]
    simp [generatedProgram, formatItems]
  obtain ⟨address, content, found, contents, holds⟩ := stands.constants _ item
  cases contents
  cases symbol.symm.trans found
  obtain ⟨first, second, third, fourth, _⟩ := holds
  -- The last one lies where the format has its first four bytes.
  have esp : after.registers.esp = 4100 := by
    apply BitVec.eq_of_toNat_eq
    rw [same]
    change core.top = 4100
    omega
  have one := word (by decide)
  rw [← same, esp, Memory.load, first, second, third, fourth] at one
  exact absurd one (by decide)

end Compiled

end ExprCompiler
