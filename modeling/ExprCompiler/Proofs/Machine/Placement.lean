import ExprCompiler.Proofs.Assembly.Reread
import ExprCompiler.Proofs.Machine.Loaded

/-!
Where data are placed. Loading agrees with a layout that knows no bounds: it succeeds if every item
of that layout ends within the room for data, and names the first one that does not otherwise. The
addresses can be computed in 32 bits, since no sum on the way leaves them.
-/

namespace ExprCompiler

section Spread

/-- Items placed one behind the other without any limit. -/
def spread (address : Nat) : List DataItem → List Placed
  | [] => []
  | item :: rest =>
      let placed : Placed := ⟨item, alignUp 4 address⟩
      placed :: spread placed.finish rest

def spreadEnd (address : Nat) : List DataItem → Nat
  | [] => address
  | item :: rest => spreadEnd (⟨item, alignUp 4 address⟩ : Placed).finish rest

namespace Program

def constantPlaces (program : Program) : List Placed := spread dataStart program.constants

def reservationPlaces (program : Program) : List Placed :=
  spread (alignUp 16 (spreadEnd dataStart program.constants)) program.reservations

def places (program : Program) : List Placed :=
  program.constantPlaces ++ program.reservationPlaces

end Program

variable {room address : Nat} {items : List DataItem} {program : Program}

def firstBeyond? (room : Nat) (places : List Placed) : Option Placed :=
  places.find? fun placed => room < placed.finish

/-- Placing items is spreading them up to the first that does not fit. -/
theorem place_items_eq (room address : Nat) (items : List DataItem) :
    placeItems room address items =
      match firstBeyond? room (spread address items) with
      | some placed => .error (.tooLarge placed.item)
      | none => .ok (spread address items, spreadEnd address items) := by
  induction items generalizing address with
  | nil => rfl
  | cons item items induction =>
      rw [placeItems, spread, firstBeyond?, List.find?_cons, ← firstBeyond?, spreadEnd, induction]
      by_cases tooLarge : room < (⟨item, alignUp 4 address⟩ : Placed).finish
      · simp only [tooLarge, if_true, decide_true]
      · simp only [tooLarge, if_false, decide_false]
        cases firstBeyond? room (spread _ items) <;> rfl

theorem layout_eq (room : Nat) (program : Program) :
    layout room program =
      match firstBeyond? room program.places with
      | some placed => .error (.tooLarge placed.item)
      | none => .ok program.places := by
  unfold layout Program.places Program.constantPlaces Program.reservationPlaces
  rw [place_items_eq, firstBeyond?, firstBeyond?, List.find?_append, ← firstBeyond?, ← firstBeyond?]
  cases firstBeyond? room (spread dataStart program.constants) with
  | some placed => rfl
  | none =>
      dsimp only [Option.none_or]
      rw [place_items_eq]
      cases firstBeyond? room (spread _ program.reservations) <;> rfl

theorem spread_items (address : Nat) (items : List DataItem) :
    (spread address items).map Placed.item = items := by
  induction items generalizing address with
  | nil => rfl
  | cons item items induction => rw [spread, List.map_cons, induction]

theorem align_up_aligned (unit address : Nat) : alignUp unit address % unit = 0 :=
  Nat.mul_mod_left _ _

theorem spread_aligned (address : Nat) (items : List DataItem) :
    ∀ placed ∈ spread address items, placed.address % 4 = 0 := by
  induction items generalizing address with
  | nil => simp [spread]
  | cons item items induction =>
      intro placed member
      rcases List.mem_cons.mp member with rfl | later
      · exact align_up_aligned 4 address
      · exact induction _ placed later

theorem spread_head {first : Placed} (aligned : address % 4 = 0)
    (isFirst : (spread address items).head? = some first) : first.address = address := by
  cases items with
  | nil => cases isFirst
  | cons item items =>
      cases isFirst
      change (address + 4 - 1) / 4 * 4 = address
      omega

end Spread

section Words

/-- The next multiple of a unit, in 32 bits, unless a sum leaves them. -/
def alignWord? (unit address : Word) : Option Word :=
  if address.toNat + unit.toNat < 0x100000000 then some ((address + unit - 1) &&& ~~~(unit - 1))
  else none

/-- An address cut to 32 bits, unless that loses some of it. -/
def narrow? (address : Nat) : Option Word :=
  if address < 0x100000000 then some (BitVec.ofNat 32 address) else none

/-- Places items with addresses of 32 bits. Only the end of an item is computed in more, before it
is compared with the room and cut. -/
def placeWords (room : Nat) (address : Word) :
    List DataItem → Option (Except LoadError (Table Word × Word))
  | [] => some (.ok ([], address))
  | item :: rest => do
      let start ← alignWord? 4 address
      let finish := start.toNat + item.size
      if room < finish then
        return .error (.tooLarge item)
      let next ← narrow? finish
      let placed ← placeWords room next rest
      return placed.map fun (later, last) => ((item.label, start) :: later, last)

def layoutWords (room : Nat) (program : Program) : Option (Except LoadError (Table Word)) := do
  match ← placeWords room (BitVec.ofNat 32 dataStart) program.constants with
  | .error problem => return .error problem
  | .ok (constants, finish) =>
      let start ← alignWord? 16 finish
      let placed ← placeWords room start program.reservations
      return placed.map fun (reservations, _) => constants ++ reservations

def Placed.symbol (placed : Placed) : Bytes × Word :=
  (placed.item.label, BitVec.ofNat 32 placed.address)

variable {room address : Nat}

theorem clear_low_bits (address : Word) {bits : Nat} (few : bits ≤ 32) :
    (address &&& ~~~BitVec.ofNat 32 (1 <<< bits - 1)).toNat = address.toNat >>> bits <<< bits := by
  apply Nat.eq_of_testBit_eq
  intro place
  have small : 2 ^ bits - 1 < 4294967296 := by
    have grows := Nat.pow_le_pow_right (n := 2) (by decide) few
    have positive := Nat.two_pow_pos bits
    omega
  rw [Nat.one_shiftLeft, BitVec.toNat_and, Nat.testBit_and, BitVec.testBit_toNat,
    BitVec.testBit_toNat, BitVec.getLsbD_not, ← BitVec.testBit_toNat (BitVec.ofNat 32 _),
    BitVec.toNat_ofNat, Nat.mod_eq_of_lt small, Nat.testBit_two_pow_sub_one,
    Nat.testBit_shiftLeft, Nat.testBit_shiftRight, ← BitVec.testBit_toNat]
  by_cases above : bits ≤ place
  · rw [Nat.add_sub_cancel' above]
    by_cases inWord : place < 32
    · simp [above, inWord]
    · have wide := Nat.pow_le_pow_right (n := 2) (by decide) (Nat.le_of_not_lt inWord)
      have clear := Nat.testBit_lt_two_pow (Nat.lt_of_lt_of_le address.isLt wide)
      simp [clear]
  · simp [above, Nat.lt_of_not_le above]

/-- Below the end of the addresses, the computation in 32 bits is that in numbers. -/
theorem align_word {bits : Nat} (inside : address + 1 <<< bits < 0x100000000) :
    alignWord? (BitVec.ofNat 32 (1 <<< bits)) (BitVec.ofNat 32 address) =
      some (BitVec.ofNat 32 (alignUp (1 <<< bits) address)) := by
  have power : 1 <<< bits = 2 ^ bits := Nat.one_shiftLeft bits
  have positive : 0 < 1 <<< bits := by
    rw [power]
    exact Nat.two_pow_pos bits
  have few : bits ≤ 32 := by
    rw [← Nat.pow_le_pow_iff_right (a := 2) (by decide)]
    omega
  have sum : BitVec.ofNat 32 address + BitVec.ofNat 32 (1 <<< bits) - (1 : Word) =
      BitVec.ofNat 32 (address + 1 <<< bits - 1) := by
    generalize 1 <<< bits = unit at inside positive
    bv_omega
  have mask : BitVec.ofNat 32 (1 <<< bits) - (1 : Word) = BitVec.ofNat 32 (1 <<< bits - 1) := by
    generalize 1 <<< bits = unit at inside positive
    bv_omega
  have rounded : (address + 1 <<< bits - 1) >>> bits <<< bits = alignUp (1 <<< bits) address := by
    rw [alignUp, Nat.shiftLeft_eq, Nat.shiftRight_eq_div_pow, power]
  have below : alignUp (1 <<< bits) address ≤ address + 1 <<< bits - 1 := Nat.div_mul_le_self _ _
  have fits : (BitVec.ofNat 32 address).toNat + (BitVec.ofNat 32 (1 <<< bits)).toNat <
      0x100000000 := by
    rw [BitVec.toNat_ofNat, BitVec.toNat_ofNat, Nat.mod_eq_of_lt (by omega),
      Nat.mod_eq_of_lt (by omega)]
    exact inside
  rw [alignWord?, if_pos fits, sum, mask]
  congr 1
  apply BitVec.eq_of_toNat_eq
  rw [clear_low_bits _ few, BitVec.toNat_ofNat, BitVec.toNat_ofNat, Nat.mod_eq_of_lt (by omega),
    Nat.mod_eq_of_lt (by omega), rounded]

/-- Every address that is looked at is that of the layout without bounds. -/
theorem place_words {items : List DataItem} (small : room < 0x80000000) (low : address < 0x80000010) :
    placeWords room (BitVec.ofNat 32 address) items =
      some ((placeItems room address items).map fun (placed, finish) =>
        (placed.map Placed.symbol, BitVec.ofNat 32 finish)) := by
  induction items generalizing address with
  | nil => rfl
  | cons item items induction =>
      have aligned : alignWord? 4 (BitVec.ofNat 32 address) =
          some (BitVec.ofNat 32 (alignUp 4 address)) := @align_word address 2 (by omega)
      have start : (BitVec.ofNat 32 (alignUp 4 address)).toNat = alignUp 4 address := by
        rw [BitVec.toNat_ofNat]
        unfold alignUp
        omega
      have finish : alignUp 4 address + item.size =
          (⟨item, alignUp 4 address⟩ : Placed).finish := rfl
      rw [placeWords, placeItems]
      simp only [aligned, Option.bind_eq_bind, Option.bind_some, start, finish]
      by_cases tooLarge : room < (⟨item, alignUp 4 address⟩ : Placed).finish
      · simp only [tooLarge, if_true]
        rfl
      · have narrow : narrow? (⟨item, alignUp 4 address⟩ : Placed).finish =
            some (BitVec.ofNat 32 (⟨item, alignUp 4 address⟩ : Placed).finish) := if_pos (by omega)
        have next : (⟨item, alignUp 4 address⟩ : Placed).finish < 0x80000010 := by omega
        have later := induction next
        simp only [tooLarge, if_false, narrow, Option.bind_some, later]
        cases placeItems room (⟨item, alignUp 4 address⟩ : Placed).finish items <;> rfl

theorem place_items_end {items : List DataItem} {placed : List Placed} {finish : Nat}
    (place : placeItems room address items = .ok (placed, finish)) :
    finish = address ∨ finish ≤ room := by
  induction items generalizing address placed finish with
  | nil =>
      cases place
      exact .inl rfl
  | cons item items induction =>
      rw [placeItems] at place
      split at place
      · cases place
      · rename_i fits
        split at place
        · cases place
        · rename_i later last rest
          cases place
          rcases induction rest with same | below
          · exact .inr (same ▸ Nat.le_of_not_lt fits)
          · exact .inr below

theorem layout_words {program : Program} (small : room < 0x80000000) :
    layoutWords room program =
      some ((layout room program).map fun placed => placed.map Placed.symbol) := by
  unfold layoutWords layout
  rw [place_words small (by decide)]
  cases first : placeItems room dataStart program.constants with
  | error problem => rfl
  | ok placed =>
      obtain ⟨constants, finish⟩ := placed
      have low : finish < 0x80000000 := by
        rcases place_items_end first with same | below
        · exact same ▸ by decide
        · omega
      have aligned : alignWord? 16 (BitVec.ofNat 32 finish) =
          some (BitVec.ofNat 32 (alignUp 16 finish)) := @align_word finish 4 (by omega)
      have start : alignUp 16 finish < 0x80000010 := by
        unfold alignUp
        omega
      simp only [Except.map, Option.bind_eq_bind, Option.bind_some, aligned,
        place_words small start]
      cases placeItems room (alignUp 16 finish) program.reservations with
      | error problem => rfl
      | ok placed => simp

end Words

section Loading

variable {program : Program} {options : MachineOptions} {loaded : Loaded}

theorem room_bound (options : MachineOptions) : options.stackTop / 2 < 0x80000000 := by
  have bound := stack_top_bound options
  omega

theorem first_beyond_cases {room : Nat} {places : List Placed} {placed : Placed} :
    firstBeyond? room places = some placed ↔ ∃ before after, places = before ++ placed :: after ∧
      (∀ earlier ∈ before, earlier.finish ≤ room) ∧ room < placed.finish := by
  rw [firstBeyond?, List.find?_eq_some_iff_append]
  simp only [decide_eq_true_eq, Bool.not_eq_eq_eq_not, Bool.not_true, decide_eq_false_iff_not,
    Nat.not_lt]
  constructor
  · rintro ⟨beyond, before, after, split, fit⟩
    exact ⟨before, after, split, fit, beyond⟩
  · rintro ⟨before, after, split, fit, beyond⟩
    exact ⟨beyond, before, after, split, fit⟩

theorem load_error_iff (problem : LoadError) :
    program.load options = .error problem ↔
      ∃ placed, firstBeyond? (options.stackTop / 2) program.places = some placed ∧
        problem = .tooLarge placed.item := by
  rw [Program.load, layout_eq]
  cases firstBeyond? (options.stackTop / 2) program.places with
  | none => simp
  | some placed => simp [eq_comm]

theorem holds_zeros {memory : Memory} {count index : Nat}
    (zero : ∀ place, index ≤ place → place < index + count → memory.byte place = 0) :
    memory.Holds index (List.replicate count 0) := by
  induction count generalizing index with
  | zero => trivial
  | succ count induction =>
      refine ⟨zero index (Nat.le_refl _) (by omega), induction ?_⟩
      intro place above below
      exact zero place (by omega) (by omega)

theorem Placed.contents_stored {memory : Memory} {places : List Placed}
    (inside : ∀ placed ∈ places, placed.finish ≤ memory.size)
    (empty : ∀ index, memory.byte index = 0)
    (ordered : places.Pairwise fun earlier later => earlier.finish ≤ later.address)
    {placed : Placed} (member : placed ∈ places) :
    (places.foldl Placed.storeIn memory).Holds placed.address placed.item.contents.toBytes := by
  cases contents : placed.item.contents with
  | bytes content => exact Placed.holds_store_all inside ordered member contents
  | zeros count =>
      have size : placed.finish = placed.address + count := by
        rw [Placed.finish, DataItem.size, contents, Contents.size]
      apply holds_zeros
      intro index above below
      rw [Placed.byte_store_all_free inside, empty]
      intro other isPlaced
      obtain ⟨before, after, rfl⟩ := List.append_of_mem member
      obtain ⟨_, fromHere, toHere⟩ := List.pairwise_append.mp ordered
      rcases List.mem_append.mp isPlaced with earlier | here | later
      · exact .inr (.inr (Nat.le_trans (toHere other earlier placed List.mem_cons_self) above))
      · exact .inl ⟨count, contents⟩
      · rename_i inAfter
        have behind := (List.pairwise_cons.mp fromHere).1 other inAfter
        exact .inr (.inl (by omega))

/-- The data of a program stand in the memory of a machine where the layout without bounds has
them. -/
structure Program.PlacedIn (program : Program) (room : Nat) (loaded : Loaded) : Prop where
  symbol : ∀ placed ∈ program.places, ∃ address,
    loaded.image.symbols.find? placed.item.label = some address ∧ address.toNat = placed.address
  aligned : ∀ placed ∈ program.places, placed.address % 4 = 0
  above : ∀ placed ∈ program.places, dataStart ≤ placed.address
  below : ∀ placed ∈ program.places, placed.finish ≤ room
  apart : program.places.Pairwise fun earlier later => earlier.finish ≤ later.address
  /-- Constants come first, and reservations start at a multiple of 16. -/
  sections : ∀ constant ∈ program.constantPlaces, ∀ reservation ∈ program.reservationPlaces,
    constant.finish ≤ reservation.address
  firstReservation : ∀ first, program.reservationPlaces.head? = some first → first.address % 16 = 0
  contents : ∀ placed ∈ program.places,
    loaded.machine.memory.Holds placed.address placed.item.contents.toBytes
  inMemory : room ≤ loaded.machine.memory.size
  free : ∀ index, (∀ placed ∈ program.places, index < placed.address ∨ placed.finish ≤ index) →
    loaded.machine.memory.byte index = 0

theorem placed_in (distinct : program.dataLabels.Nodup) (load : program.load options = .ok loaded) :
    program.PlacedIn (options.stackTop / 2) loaded := by
  obtain ⟨placed, laid, memory, placing⟩ := laid_in_memory load distinct
  have chained := (layout_chained placing).2
  have isPlaces : placed = program.places := by
    rw [layout_eq] at placing
    split at placing
    · cases placing
    · cases placing
      rfl
  subst isPlaces
  have size : loaded.machine.memory.size = options.size := by
    rw [memory, Placed.size_store_all]
    exact Array.size_replicate
  have top := stack_top_inside options
  have inside : ∀ placed ∈ program.places, placed.finish ≤ (Memory.zeros options.size).size := by
    intro placed member
    have below := chained.below placed member
    rw [Memory.zeros, Array.size_replicate]
    omega
  refine ⟨laid.symbol, ?_, chained.above, chained.below, chained.ordered,
    (List.pairwise_append.mp chained.ordered).2.2, ?_, ?_, by omega, ?_⟩
  · intro placed member
    rcases List.mem_append.mp member with constant | reservation
    · exact spread_aligned _ _ placed constant
    · exact spread_aligned _ _ placed reservation
  · intro first isFirst
    have aligned := align_up_aligned 16 (spreadEnd dataStart program.constants)
    rw [spread_head (by omega) isFirst]
    exact aligned
  · intro placed member
    rw [memory]
    exact Placed.contents_stored inside (byte_zeros _) chained.ordered member
  · intro index outside
    rw [memory, Placed.byte_store_all_other inside outside, byte_zeros]

/-- Data are laid out soundly. Loading fails if and only if some item would end beyond the lower
half of memory, and names the first; otherwise all data stand in memory, aligned, in order and apart
from each other, and the rest of memory is zero. The addresses are those that are computed in 32
bits, and no sum on the way leaves these. -/
theorem data_layout_sound {text : Bytes} (read : readListing text = .ok program)
    (options : MachineOptions) :
    program.constantPlaces.map Placed.item = program.constants ∧
      program.reservationPlaces.map Placed.item = program.reservations ∧
      layoutWords (options.stackTop / 2) program =
        some ((program.load options).map fun loaded => loaded.image.symbols) ∧
      (∀ problem, program.load options = .error problem ↔
        ∃ before placed after, program.places = before ++ placed :: after ∧
          (∀ earlier ∈ before, earlier.finish ≤ options.stackTop / 2) ∧
          options.stackTop / 2 < placed.finish ∧ problem = .tooLarge placed.item) ∧
      ∀ loaded, program.load options = .ok loaded →
        program.PlacedIn (options.stackTop / 2) loaded := by
  have distinct : program.dataLabels.Nodup :=
    (List.nodup_append.mp (read_listing_linked read).distinct).2.1
  refine ⟨spread_items _ _, spread_items _ _, ?_, ?_, fun loaded => placed_in distinct⟩
  · rw [layout_words (room_bound options), Program.load]
    cases layout (options.stackTop / 2) program <;> rfl
  · intro problem
    rw [load_error_iff]
    simp only [first_beyond_cases]
    constructor
    · rintro ⟨placed, ⟨before, after, split, fit, beyond⟩, named⟩
      exact ⟨before, placed, after, split, fit, beyond, named⟩
    · rintro ⟨before, placed, after, split, fit, beyond, named⟩
      exact ⟨placed, ⟨before, after, split, fit, beyond⟩, named⟩

/-- Three bytes and a reserved word, which starts at the next multiple of 16. -/
def dataListing : Bytes :=
  utf8 "section .rdata\ntext: db 1, 2, 3\nsection .bss\ncell: resd 1\n"

def dataProgram : Program where
  constants := [⟨2, utf8 "text", .bytes [1, 2, 3]⟩]
  reservations := [⟨4, utf8 "cell", .zeros 4⟩]

/-- The data end where half of the memory does; with one byte of memory less they do not fit. -/
theorem data_fit_exactly :
    readListing dataListing = .ok dataProgram ∧
      (∃ loaded, dataProgram.load { memorySize := 0x2028 } = .ok loaded ∧
        dataProgram.PlacedIn 0x1014 loaded ∧
        loaded.image.symbols = [(utf8 "text", 0x1000), (utf8 "cell", 0x1010)]) ∧
      dataProgram.load { memorySize := 0x2027 } =
        .error (.tooLarge ⟨4, utf8 "cell", .zeros 4⟩) := by
  have read : readListing dataListing = .ok dataProgram := ok_of_option (by decide +kernel)
  obtain ⟨_, _, words, _, placed⟩ := data_layout_sound read { memorySize := 0x2028 }
  obtain ⟨_, _, _, fails, _⟩ := data_layout_sound read { memorySize := 0x2027 }
  have computed : layoutWords 0x1014 dataProgram =
      some (.ok [(utf8 "text", 0x1000), (utf8 "cell", 0x1010)]) := by rfl
  refine ⟨read, ?_, ?_⟩
  · cases load : dataProgram.load { memorySize := 0x2028 } with
    | error problem =>
        rw [load] at words
        cases computed.symm.trans words
    | ok loaded =>
        rw [load] at words
        have symbols := Except.ok.inj (Option.some.inj (words.symm.trans computed))
        exact ⟨loaded, rfl, placed loaded load, symbols⟩
  · exact (fails _).mpr ⟨dataProgram.constantPlaces, ⟨⟨4, utf8 "cell", .zeros 4⟩, 0x1010⟩, [], rfl,
      by decide, by decide, rfl⟩

end Loading

end ExprCompiler
