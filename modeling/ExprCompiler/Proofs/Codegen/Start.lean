import ExprCompiler.Proofs.Codegen.Dialogue
import ExprCompiler.Proofs.Codegen.Listing
import ExprCompiler.Proofs.Machine.Layout

/-!
A generated program as it starts. Its formats and prompts stand in memory under their labels, and
the cells of its variables lie behind them without overlap.
-/

namespace ExprCompiler

variable {code : List Line} {names : List Bytes} {options : MachineOptions} {loaded : Loaded}

theorem generated_labels (code : List Line) (names : List Bytes) :
    ((generatedProgram code names).constants ++
      (generatedProgram code names).reservations).map DataItem.label =
      utf8 "read_format" :: utf8 "write_format" ::
        (names.map promptLabel ++ names.map variableLabel) := by
  simp [generatedProgram, formatItems, cellItems, labels_items_from]

theorem generated_labels_distinct (code : List Line) (distinct : names.Nodup) :
    (((generatedProgram code names).constants ++
      (generatedProgram code names).reservations).map DataItem.label).Nodup := by
  have notFormat {label : Bytes} (noPrompt : label.head? ≠ some 0x70)
      (noVariable : label.head? ≠ some 0x76) :
      label ∉ names.map promptLabel ++ names.map variableLabel := by
    intro member
    rcases List.mem_append.mp member with inPrompts | inVariables
    · obtain ⟨name, _, rfl⟩ := List.mem_map.mp inPrompts
      exact noPrompt rfl
    · obtain ⟨name, _, rfl⟩ := List.mem_map.mp inVariables
      exact noVariable rfl
  rw [generated_labels, List.nodup_cons, List.nodup_cons]
  refine ⟨?_, notFormat (by decide) (by decide), ?_⟩
  · rw [List.mem_cons]
    rintro (same | later)
    · exact absurd same (by decide)
    · exact notFormat (by decide) (by decide) later
  · refine List.nodup_append.mpr
      ⟨prompt_labels_distinct distinct, variable_labels_distinct distinct, ?_⟩
    intro prompt inPrompts label inVariables same
    obtain ⟨name, _, rfl⟩ := List.mem_map.mp inPrompts
    obtain ⟨other, _, rfl⟩ := List.mem_map.mp inVariables
    have heads : some (0x70 : UInt8) = some 0x76 := congrArg List.head? same
    exact absurd heads (by decide)

theorem mem_items_of_name {label : Bytes → Bytes} {contents : Bytes → Contents} (number : Nat)
    {name : Bytes} (member : name ∈ names) :
    ∃ item ∈ itemsFrom label contents number names,
      item.label = label name ∧ item.contents = contents name := by
  induction names generalizing number with
  | nil => cases member
  | cons first rest induction =>
      rcases List.mem_cons.mp member with rfl | inRest
      · exact ⟨_, List.mem_cons_self, rfl, rfl⟩
      · obtain ⟨item, inItems, found⟩ := induction (number + 1) inRest
        exact ⟨item, List.mem_cons_of_mem _ inItems, found⟩

theorem text_of_laid {placed : List Placed} (laid : Laid loaded placed) {one : Placed}
    (member : one ∈ placed) {limit : Nat} (ends : one.finish ≤ limit) {text : Bytes}
    (contents : one.item.contents = .bytes (text ++ [0])) :
    TextAt loaded.image limit loaded.machine.memory one.item.label text := by
  obtain ⟨address, found, same⟩ := laid.symbol one member
  have size : one.item.size = text.length + 1 := by
    rw [DataItem.size, contents, Contents.size, List.length_append, List.length_singleton]
  refine ⟨address, found, ?_, ?_⟩
  · rw [Placed.finish, size] at ends
    omega
  · rw [same]
    exact laid.holds one member _ contents

section Data

variable {placed constants cells : List Placed} {last : Placed}

theorem texts_of_laid {number : Nat} (laid : Laid loaded (constants ++ cells))
    (items : constants.map Placed.item = formatItems number names)
    (isLast : constants.getLast? = some last) :
    Texts loaded.image names last.finish loaded.machine.memory := by
  have ordered := (List.pairwise_append.mp laid.ordered).1
  have stands {item : DataItem} {text : Bytes} (member : item ∈ formatItems number names)
      (contents : item.contents = .bytes (text ++ [0])) :
      TextAt loaded.image last.finish loaded.machine.memory item.label text := by
    rw [← items] at member
    obtain ⟨one, inConstants, rfl⟩ := List.mem_map.mp member
    exact text_of_laid laid (List.mem_append_left _ inConstants)
      (ends_before_last ordered isLast one inConstants) contents
  constructor
  · exact @stands ⟨number, utf8 "read_format", _⟩ _ (by simp [formatItems]) rfl
  · exact @stands ⟨number + 1, utf8 "write_format", _⟩ (utf8 "%d" ++ [10])
      (by simp [formatItems]) rfl
  · intro name inNames
    obtain ⟨item, member, label, contents⟩ :=
      @mem_items_of_name names promptLabel promptContents (number + 2) name inNames
    rw [← label]
    exact stands (by simp [formatItems, member]) contents

theorem places_of_laid {number : Nat} (laid : Laid loaded (constants ++ cells))
    (items : cells.map Placed.item = cellItems number names)
    (isLast : constants.getLast? = some last) :
    Places loaded.image names last.finish loaded.image.dataEnd := by
  obtain ⟨_, ordered, behind⟩ := List.pairwise_append.mp laid.ordered
  have lastMember := List.mem_of_getLast? isLast
  have size : ∀ one ∈ cells, one.finish = one.address + 4 := by
    intro one member
    have inItems : one.item ∈ cellItems number names := by
      rw [← items]
      exact List.mem_map.mpr ⟨one, member, rfl⟩
    obtain ⟨_, _, _, contents⟩ := mem_items_from inItems
    rw [Placed.finish, DataItem.size, contents, Contents.size]
  refine ⟨laid.ends last (List.mem_append_left _ lastMember), ?_, ?_⟩
  · intro name inNames
    obtain ⟨item, member, label, contents⟩ :=
      @mem_items_of_name names variableLabel (fun _ => .zeros 4) number name inNames
    have inItems : item ∈ cells.map Placed.item := by
      rw [items]
      exact member
    obtain ⟨one, inCells, rfl⟩ := List.mem_map.mp inItems
    obtain ⟨address, found, same⟩ := laid.symbol one (List.mem_append_right _ inCells)
    rw [label] at found
    refine ⟨address, found, ?_, ?_⟩
    · rw [same]
      exact behind last lastMember one inCells
    · rw [same, ← size one inCells]
      exact laid.ends one (List.mem_append_right _ inCells)
  · have labels : cells.map (fun one => one.item.label) = names.map variableLabel := by
      have mapped := congrArg (List.map DataItem.label) items
      rwa [List.map_map, cellItems, labels_items_from] at mapped
    have apart : cells.Pairwise fun earlier later =>
        CellBefore loaded.image earlier.item.label later.item.label := by
      refine List.Pairwise.imp_of_mem ?_ ordered
      intro earlier later inEarlier inLater before first second firstFound secondFound
      obtain ⟨_, found, same⟩ := laid.symbol earlier (List.mem_append_right _ inEarlier)
      obtain ⟨_, otherFound, otherSame⟩ := laid.symbol later (List.mem_append_right _ inLater)
      cases found.symm.trans firstFound
      cases otherFound.symm.trans secondFound
      rw [same, otherSame, ← size earlier inEarlier]
      exact before
    have mapped : (cells.map fun one => one.item.label).Pairwise (CellBefore loaded.image) :=
      List.pairwise_map.mpr apart
    rw [labels] at mapped
    exact List.pairwise_map.mp mapped

end Data

/-- The texts and the cells of a program as it starts. -/
theorem generated_data (load : (generatedProgram code names).load options = .ok loaded)
    (distinct : names.Nodup) :
    ∃ limit, Texts loaded.image names limit loaded.machine.memory ∧
      Places loaded.image names limit loaded.image.dataEnd := by
  obtain ⟨placed, laid⟩ := laid_of_load load (generated_labels_distinct code distinct)
  have program : loaded.image.program = generatedProgram code names := by
    obtain ⟨_, _, _, image, _⟩ := load_cases load
    rw [image]
  have items := laid.items
  rw [program, List.map_eq_append_iff] at items
  obtain ⟨constants, cells, rfl, constantItems, cellItems⟩ := items
  obtain ⟨last, isLast⟩ : ∃ last, constants.getLast? = some last := by
    cases constants with
    | nil => cases constantItems
    | cons first rest => exact ⟨_, List.getLast?_eq_some_getLast (List.cons_ne_nil _ _)⟩
  exact ⟨last.finish, texts_of_laid laid constantItems isLast, places_of_laid laid cellItems isLast⟩

end ExprCompiler
