import ExprCompiler.Machine.Load
import ExprCompiler.Proofs.Machine.Memory
import ExprCompiler.Proofs.Table

/-!
Data layout. Items are placed one behind the other without overlap, below the room for data, and
memory holds their bytes once a program is loaded.
-/

namespace ExprCompiler

/-- Items placed one behind the other from an address on, none of them ending past a limit. -/
def Chained (limit start : Nat) : List Placed → Prop
  | [] => True
  | placed :: rest =>
      start ≤ placed.address ∧ placed.finish ≤ limit ∧ Chained limit placed.finish rest

theorem align_up_le {unit address : Nat} (some : 0 < unit) : address ≤ alignUp unit address := by
  have split := Nat.div_add_mod (address + unit - 1) unit
  have remainder := Nat.mod_lt (address + unit - 1) some
  rw [alignUp, Nat.mul_comm]
  omega

theorem Chained.lower {limit start lower : Nat} {placed : List Placed}
    (chained : Chained limit start placed) (below : lower ≤ start) :
    Chained limit lower placed := by
  cases placed with
  | nil => trivial
  | cons first rest => exact ⟨Nat.le_trans below chained.1, chained.2⟩

theorem Chained.append {limit start middle : Nat} {before after : List Placed}
    (first : Chained limit start before)
    (ends : ∀ placed ∈ before, placed.finish ≤ middle) (startBelow : start ≤ middle)
    (second : Chained limit middle after) : Chained limit start (before ++ after) := by
  induction before generalizing start with
  | nil => exact second.lower startBelow
  | cons placed before induction =>
      obtain ⟨above, below, later⟩ := first
      refine ⟨above, below, ?_⟩
      exact induction later (fun other member => ends other (by simp [member]))
        (ends placed (by simp))

/-- The items of a successful placement, in order, and where the last of them ends. -/
theorem place_items_chained {limit address : Nat} {items : List DataItem} {placed : List Placed}
    {finish : Nat} (place : placeItems limit address items = .ok (placed, finish)) :
    placed.map Placed.item = items ∧ Chained limit address placed ∧ address ≤ finish ∧
      ∀ one ∈ placed, one.finish ≤ finish := by
  induction items generalizing address placed finish with
  | nil =>
      cases place
      exact ⟨rfl, trivial, Nat.le_refl _, by simp⟩
  | cons item items induction =>
      rw [placeItems] at place
      split at place
      · cases place
      · rename_i fits
        split at place
        · cases place
        · rename_i later lastFinish rest
          cases place
          obtain ⟨sameItems, chained, above, ends⟩ := induction rest
          have aligned : address ≤ alignUp 4 address := align_up_le (by decide)
          refine ⟨by rw [List.map_cons, sameItems], ⟨aligned, Nat.le_of_not_lt fits, chained⟩, ?_, ?_⟩
          · simp only [Placed.finish] at above
            omega
          · intro one member
            rcases List.mem_cons.mp member with rfl | inRest
            · exact above
            · exact ends one inRest

theorem layout_chained {limit : Nat} {program : Program} {placed : List Placed}
    (placing : layout limit program = .ok placed) :
    placed.map Placed.item = program.constants ++ program.reservations ∧
      Chained limit dataStart placed := by
  unfold layout at placing
  split at placing
  · cases placing
  · rename_i constants finish constantsPlaced
    split at placing
    · cases placing
    · rename_i reservations _ reservationsPlaced
      cases placing
      obtain ⟨sameConstants, first, above, ends⟩ := place_items_chained constantsPlaced
      obtain ⟨sameReservations, second, _, _⟩ := place_items_chained reservationsPlaced
      have aligned : finish ≤ alignUp 16 finish := align_up_le (by decide)
      refine ⟨by rw [List.map_append, sameConstants, sameReservations], ?_⟩
      refine first.append ?_ (Nat.le_trans above aligned) second
      exact fun one member => Nat.le_trans (ends one member) aligned

namespace Chained

variable {limit start : Nat} {placed : List Placed}

theorem above (chained : Chained limit start placed) : ∀ one ∈ placed, start ≤ one.address := by
  induction placed generalizing start with
  | nil => simp
  | cons first rest induction =>
      intro one member
      rcases List.mem_cons.mp member with rfl | inRest
      · exact chained.1
      · have later := induction chained.2.2 one inRest
        have own : first.address ≤ first.finish := Nat.le_add_right _ _
        exact Nat.le_trans chained.1 (Nat.le_trans own later)

theorem below (chained : Chained limit start placed) : ∀ one ∈ placed, one.finish ≤ limit := by
  induction placed generalizing start with
  | nil => simp
  | cons first rest induction =>
      intro one member
      rcases List.mem_cons.mp member with rfl | inRest
      · exact chained.2.1
      · exact induction chained.2.2 one inRest

theorem ordered (chained : Chained limit start placed) :
    placed.Pairwise fun earlier later => earlier.finish ≤ later.address := by
  induction placed generalizing start with
  | nil => exact List.Pairwise.nil
  | cons first rest induction =>
      exact List.pairwise_cons.mpr ⟨chained.2.2.above, induction chained.2.2⟩

end Chained

theorem ends_before_last {placed : List Placed} {last : Placed}
    (ordered : placed.Pairwise fun earlier later => earlier.finish ≤ later.address)
    (isLast : placed.getLast? = some last) : ∀ one ∈ placed, one.finish ≤ last.finish := by
  obtain ⟨earlier, rfl⟩ := List.getLast?_eq_some_iff.mp isLast
  intro one member
  rcases List.mem_append.mp member with inEarlier | isOne
  · have before := (List.pairwise_append.mp ordered).2.2 one inEarlier last (by simp)
    exact Nat.le_trans before (Nat.le_add_right _ _)
  · exact Nat.le_of_eq (congrArg Placed.finish (List.mem_singleton.mp isOne))

theorem byte_zeros (size index : Nat) : (Memory.zeros size).byte index = 0 := by
  unfold Memory.byte Memory.zeros
  rw [Array.getD_eq_getD_getElem?, Array.getElem?_replicate]
  split <;> rfl

namespace Placed

theorem size_store_in (memory : Memory) (placed : Placed) :
    (storeIn memory placed).size = memory.size := by
  unfold storeIn
  split
  · exact Memory.size_store_bytes _ _
  · rfl

theorem size_store_all (memory : Memory) (placed : List Placed) :
    (placed.foldl storeIn memory).size = memory.size := by
  induction placed generalizing memory with
  | nil => rfl
  | cons first rest induction => rw [List.foldl_cons, induction, size_store_in]

theorem byte_store_in_other {memory : Memory} {placed : Placed} {place : Nat}
    (inside : placed.finish ≤ memory.size)
    (outside : place < placed.address ∨ placed.finish ≤ place) :
    (storeIn memory placed).byte place = memory.byte place := by
  unfold storeIn
  split
  · rename_i content isBytes
    have size : placed.item.size = content.length := by rw [DataItem.size, isBytes, Contents.size]
    rw [finish, size] at inside outside
    exact Memory.byte_store_bytes_other inside outside
  · rfl

/-- Reserved bytes and bytes outside all items are not written to. -/
theorem byte_store_all_free {memory : Memory} {placed : List Placed} {place : Nat}
    (inside : ∀ one ∈ placed, one.finish ≤ memory.size)
    (free : ∀ one ∈ placed, (∃ count, one.item.contents = .zeros count) ∨
      place < one.address ∨ one.finish ≤ place) :
    (placed.foldl storeIn memory).byte place = memory.byte place := by
  induction placed generalizing memory with
  | nil => rfl
  | cons first rest induction =>
      have here : (storeIn memory first).byte place = memory.byte place := by
        rcases free first (by simp) with ⟨count, reserved⟩ | outside
        · rw [storeIn, reserved]
        · exact byte_store_in_other (inside first (by simp)) outside
      rw [List.foldl_cons, induction, here]
      · intro one member
        rw [size_store_in]
        exact inside one (by simp [member])
      · exact fun one member => free one (by simp [member])

theorem byte_store_all_other {memory : Memory} {placed : List Placed} {place : Nat}
    (inside : ∀ one ∈ placed, one.finish ≤ memory.size)
    (outside : ∀ one ∈ placed, place < one.address ∨ one.finish ≤ place) :
    (placed.foldl storeIn memory).byte place = memory.byte place :=
  byte_store_all_free inside fun one member => .inr (outside one member)

theorem holds_store_in {memory : Memory} {placed : Placed} {content : Bytes}
    (inside : placed.finish ≤ memory.size) (isBytes : placed.item.contents = .bytes content) :
    (storeIn memory placed).Holds placed.address content := by
  have size : placed.item.size = content.length := by rw [DataItem.size, isBytes, Contents.size]
  rw [finish, size] at inside
  rw [storeIn, isBytes]
  exact Memory.holds_store_bytes inside

theorem holds_store_all {memory : Memory} {placed : List Placed}
    (inside : ∀ one ∈ placed, one.finish ≤ memory.size)
    (ordered : placed.Pairwise fun earlier later => earlier.finish ≤ later.address) {one : Placed}
    (member : one ∈ placed) {content : Bytes} (isBytes : one.item.contents = .bytes content) :
    (placed.foldl storeIn memory).Holds one.address content := by
  induction placed generalizing memory with
  | nil => cases member
  | cons first rest induction =>
      obtain ⟨afterFirst, restOrdered⟩ := List.pairwise_cons.mp ordered
      have restInside : ∀ other ∈ rest, other.finish ≤ (storeIn memory first).size := by
        intro other inRest
        rw [size_store_in]
        exact inside other (by simp [inRest])
      rw [List.foldl_cons]
      rcases List.mem_cons.mp member with rfl | inRest
      · have size : one.item.size = content.length := by rw [DataItem.size, isBytes, Contents.size]
        apply (holds_store_in (inside one (by simp)) isBytes).congr
        intro place above below
        apply byte_store_all_other restInside
        intro other inRest
        have apart := afterFirst other inRest
        rw [finish, size] at apart
        exact .inl (by omega)
      · exact induction restInside restOrdered inRest

end Placed

def Image.dataEnd (image : Image) : Nat :=
  match (image.program.constants ++ image.program.reservations).getLast? with
  | some item => ((image.symbols.find? item.label).getD 0).toNat + item.size
  | none => 0

variable {program : Program} {options : MachineOptions} {loaded : Loaded}

theorem load_layout (load : program.load options = .ok loaded) :
    ∃ placed, layout (options.stackTop / 2) program = .ok placed ∧
      loaded.image =
        { program := program
          symbols := placed.map fun item => (item.item.label, BitVec.ofNat 32 item.address)
          stackTop := options.stackTop
          stepLimit := options.limit
          routines := options.routines } ∧
      loaded.machine =
        { registers := { esp := BitVec.ofNat 32 options.stackTop }
          memory := placed.foldl Placed.storeIn (Memory.zeros options.size)
          unread := options.input
          ip := program.entry } := by
  unfold Program.load at load
  split at load
  · cases load
  · rename_i placed placing
    cases load
    exact ⟨placed, placing, rfl, rfl⟩

/-- What loading gives: the items in their places and a machine that is about to start. -/
theorem load_cases (load : program.load options = .ok loaded) :
    ∃ placed, placed.map Placed.item = program.constants ++ program.reservations ∧
      Chained (options.stackTop / 2) dataStart placed ∧
      loaded.image =
        { program := program
          symbols := placed.map fun item => (item.item.label, BitVec.ofNat 32 item.address)
          stackTop := options.stackTop
          stepLimit := options.limit
          routines := options.routines } ∧
      loaded.machine =
        { registers := { esp := BitVec.ofNat 32 options.stackTop }
          memory := placed.foldl Placed.storeIn (Memory.zeros options.size)
          unread := options.input
          ip := program.entry } := by
  obtain ⟨placed, placing, image, machine⟩ := load_layout load
  obtain ⟨items, chained⟩ := layout_chained placing
  exact ⟨placed, items, chained, image, machine⟩

/-- The data of a loaded program in their places. -/
structure Laid (loaded : Loaded) (placed : List Placed) : Prop where
  items : placed.map Placed.item =
    loaded.image.program.constants ++ loaded.image.program.reservations
  ordered : placed.Pairwise fun earlier later => earlier.finish ≤ later.address
  symbol : ∀ one ∈ placed, ∃ address, loaded.image.symbols.find? one.item.label = some address ∧
    address.toNat = one.address
  ends : ∀ one ∈ placed, one.finish ≤ loaded.image.dataEnd
  below : ∀ one ∈ placed, one.finish ≤ loaded.image.stackTop / 2
  holds : ∀ one ∈ placed, ∀ content, one.item.contents = .bytes content →
    loaded.machine.memory.Holds one.address content

theorem Laid.data_end {placed : List Placed} (laid : Laid loaded placed) :
    loaded.image.dataEnd ≤ loaded.image.stackTop / 2 := by
  unfold Image.dataEnd
  rw [← laid.items, List.getLast?_map]
  cases isLast : placed.getLast? with
  | none => exact Nat.zero_le _
  | some last =>
      obtain ⟨address, found, same⟩ := laid.symbol last (List.mem_of_getLast? isLast)
      simp only [Option.map_some, found, Option.getD_some, same]
      exact laid.below last (List.mem_of_getLast? isLast)

theorem stack_top_bound (options : MachineOptions) : options.stackTop < 0x100000000 :=
  Nat.mod_lt _ (by decide)

theorem stack_top_inside (options : MachineOptions) : options.stackTop ≤ options.size :=
  Nat.mod_le _ _

theorem laid_in_memory (load : program.load options = .ok loaded)
    (distinct : ((program.constants ++ program.reservations).map DataItem.label).Nodup) :
    ∃ placed, Laid loaded placed ∧
      loaded.machine.memory = placed.foldl Placed.storeIn (Memory.zeros options.size) ∧
      layout (options.stackTop / 2) program = .ok placed := by
  obtain ⟨placed, placing, image, machine⟩ := load_layout load
  obtain ⟨items, chained⟩ := layout_chained placing
  have bound := stack_top_bound options
  have size : (Memory.zeros options.size).size = options.size := Array.size_replicate
  have inside : ∀ one ∈ placed, one.finish ≤ (Memory.zeros options.size).size := by
    intro one member
    have below := chained.below one member
    have top := stack_top_inside options
    omega
  have symbol : ∀ one ∈ placed, ∃ address,
      loaded.image.symbols.find? one.item.label = some address ∧ address.toNat = one.address := by
    intro one member
    have below := chained.below one member
    refine ⟨BitVec.ofNat 32 one.address, ?_, ?_⟩
    · rw [image]
      refine find_of_mem ?_ (List.mem_map.mpr ⟨one, member, rfl⟩)
      rw [List.map_map]
      rwa [← items, List.map_map] at distinct
    · rw [BitVec.toNat_ofNat]
      unfold Placed.finish at below
      exact Nat.mod_eq_of_lt (by omega)
  have program : loaded.image.program = program := by rw [image]
  refine ⟨placed, ⟨by rw [program, items], chained.ordered, symbol, ?_, ?_, ?_⟩,
    by rw [machine], placing⟩
  · intro one member
    obtain ⟨last, isLast⟩ : ∃ last, placed.getLast? = some last := by
      cases placed with
      | nil => cases member
      | cons first rest => exact ⟨_, List.getLast?_eq_some_getLast (List.cons_ne_nil _ _)⟩
    have lastItem : (loaded.image.program.constants ++
        loaded.image.program.reservations).getLast? = some last.item := by
      rw [program, ← items, List.getLast?_map, isLast]
      rfl
    obtain ⟨address, found, same⟩ := symbol last (List.mem_of_getLast? isLast)
    rw [Image.dataEnd, lastItem]
    simp only [found, Option.getD_some, same]
    exact ends_before_last chained.ordered isLast one member
  · intro one member
    rw [image]
    exact chained.below one member
  · intro one member content isBytes
    rw [machine]
    exact Placed.holds_store_all inside chained.ordered member isBytes

theorem laid_of_load (load : program.load options = .ok loaded)
    (distinct : ((program.constants ++ program.reservations).map DataItem.label).Nodup) :
    ∃ placed, Laid loaded placed := by
  obtain ⟨placed, laid, _⟩ := laid_in_memory load distinct
  exact ⟨placed, laid⟩

section Visible

/-- What a running program sees of an item; its line in the listing is not part of that. -/
def DataItem.visible (item : DataItem) : Bytes × Contents := (item.label, item.contents)

def Placed.visible (placed : Placed) : (Bytes × Contents) × Nat :=
  (placed.item.visible, placed.address)

theorem place_items_congr {limit address finish : Nat} {items others : List DataItem}
    {placed : List Placed} (same : items.map DataItem.visible = others.map DataItem.visible)
    (place : placeItems limit address items = .ok (placed, finish)) :
    ∃ otherPlaced, placeItems limit address others = .ok (otherPlaced, finish) ∧
      otherPlaced.map Placed.visible = placed.map Placed.visible := by
  induction items generalizing others address placed finish with
  | nil =>
      cases others with
      | nil =>
          cases place
          exact ⟨[], rfl, rfl⟩
      | cons other others => cases same
  | cons item items induction =>
      cases others with
      | nil => cases same
      | cons other others =>
          obtain ⟨first, rest⟩ := List.cons.inj same
          have contents : item.contents = other.contents := congrArg Prod.snd first
          have finishes : (⟨other, alignUp 4 address⟩ : Placed).finish =
              (⟨item, alignUp 4 address⟩ : Placed).finish := by
            simp only [Placed.finish, DataItem.size, contents]
          rw [placeItems] at place
          split at place
          · cases place
          · rename_i fits
            split at place
            · cases place
            · rename_i later last placedLater
              cases place
              obtain ⟨otherLater, otherPlaced, sameLater⟩ := induction rest placedLater
              refine ⟨⟨other, alignUp 4 address⟩ :: otherLater, ?_, ?_⟩
              · rw [placeItems]
                simp only [finishes, otherPlaced, if_neg fits]
              · rw [List.map_cons, List.map_cons, sameLater, Placed.visible, Placed.visible, first]

theorem store_all_congr {placed others : List Placed}
    (same : others.map Placed.visible = placed.map Placed.visible) (memory : Memory) :
    others.foldl Placed.storeIn memory = placed.foldl Placed.storeIn memory := by
  have stored (list : List Placed) : list.foldl Placed.storeIn memory =
      (list.map Placed.visible).foldl (fun memory visible =>
        Placed.storeIn memory ⟨⟨0, visible.1.1, visible.1.2⟩, visible.2⟩) memory := by
    rw [List.foldl_map]
    rfl
  rw [stored, stored, same]

/-- Programs whose data look the same are loaded alike. -/
theorem load_alike {other : Program} (load : program.load options = .ok loaded)
    (constants : program.constants.map DataItem.visible =
      other.constants.map DataItem.visible)
    (reservations : program.reservations.map DataItem.visible =
      other.reservations.map DataItem.visible) :
    ∃ otherLoaded, other.load options = .ok otherLoaded ∧
      otherLoaded.image = { loaded.image with program := other } ∧
      otherLoaded.machine.toCore = loaded.machine.toCore := by
  unfold Program.load layout at load
  split at load
  · cases load
  · rename_i placed placing
    cases load
    split at placing
    · cases placing
    · rename_i first finish firstPlaced
      split at placing
      · cases placing
      · rename_i second last secondPlaced
        cases placing
        obtain ⟨otherFirst, otherFirstPlaced, sameFirst⟩ := place_items_congr constants firstPlaced
        obtain ⟨otherSecond, otherSecondPlaced, sameSecond⟩ :=
          place_items_congr reservations secondPlaced
        have same : (otherFirst ++ otherSecond).map Placed.visible =
            (first ++ second).map Placed.visible := by
          rw [List.map_append, List.map_append, sameFirst, sameSecond]
        have symbols : ∀ list : List Placed,
            list.map (fun item => (item.item.label, BitVec.ofNat 32 item.address)) =
              (list.map Placed.visible).map fun visible =>
                (visible.1.1, BitVec.ofNat 32 visible.2) := by
          intro list
          rw [List.map_map]
          rfl
        simp only [Program.load, layout, otherFirstPlaced, otherSecondPlaced]
        refine ⟨_, rfl, ?_, ?_⟩
        · rw [symbols, same, ← symbols]
        · rw [store_all_congr same]

end Visible

end ExprCompiler
