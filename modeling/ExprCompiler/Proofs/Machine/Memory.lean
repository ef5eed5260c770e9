import ExprCompiler.Machine.Memory

/-!
What stores change and what they leave alone, byte by byte, and when a text can be found in memory.
-/

namespace ExprCompiler.Memory

variable {memory other : Memory}

theorem byte_set {index : Nat} (value : UInt8) (at_ : Nat) (inside : index < memory.size) :
    byte (memory.setIfInBounds index value) at_ =
      if at_ = index then value else memory.byte at_ := by
  unfold byte
  rw [Array.getD_eq_getD_getElem?, Array.getD_eq_getD_getElem?, Array.getElem?_setIfInBounds]
  by_cases same : index = at_
  · subst same
    simp [inside]
  · have different : ¬at_ = index := fun equal => same equal.symm
    simp [same, different]

@[simp] theorem size_store (address value : Word) :
    (memory.store address value).size = memory.size := by
  simp [store]

theorem byte_store {address : Word} (value : Word) (index : Nat)
    (inside : memory.holdsWord address = true) :
    (memory.store address value).byte index =
      if index = address.toNat + 3 then UInt8.ofNat (value.toNat / 16777216)
      else if index = address.toNat + 2 then UInt8.ofNat (value.toNat / 65536)
      else if index = address.toNat + 1 then UInt8.ofNat (value.toNat / 256)
      else if index = address.toNat then UInt8.ofNat value.toNat
      else memory.byte index := by
  simp only [holdsWord, decide_eq_true_eq] at inside
  unfold store
  rw [byte_set _ _ (by simp; omega), byte_set _ _ (by simp; omega), byte_set _ _ (by simp; omega),
    byte_set _ _ (by omega)]

theorem byte_store_other {address : Word} (value : Word) {index : Nat}
    (inside : memory.holdsWord address = true)
    (outside : index < address.toNat ∨ address.toNat + 4 ≤ index) :
    (memory.store address value).byte index = memory.byte index := by
  rw [byte_store value index inside, if_neg (by omega), if_neg (by omega), if_neg (by omega),
    if_neg (by omega)]

/-- The same store keeps two memories equal where they were, and makes them so where it writes. -/
theorem byte_store_congr {address : Word} (value : Word) {index : Nat}
    (inside : memory.holdsWord address = true) (otherInside : other.holdsWord address = true)
    (same : index < address.toNat ∨ address.toNat + 4 ≤ index →
      other.byte index = memory.byte index) :
    (other.store address value).byte index = (memory.store address value).byte index := by
  rw [byte_store value index inside, byte_store value index otherInside]
  by_cases outside : index < address.toNat ∨ address.toNat + 4 ≤ index
  · rw [same outside]
  · split
    · rfl
    · split
      · rfl
      · split
        · rfl
        · rw [if_pos (by omega), if_pos (by omega)]

theorem load_store {address : Word} (value : Word) (inside : memory.holdsWord address = true) :
    (memory.store address value).load address = value := by
  have bound := value.isLt
  have first : (memory.store address value).byte address.toNat = UInt8.ofNat value.toNat := by
    rw [byte_store value _ inside, if_neg (by omega), if_neg (by omega), if_neg (by omega),
      if_pos rfl]
  have second : (memory.store address value).byte (address.toNat + 1) =
      UInt8.ofNat (value.toNat / 256) := by
    rw [byte_store value _ inside, if_neg (by omega), if_neg (by omega), if_pos rfl]
  have third : (memory.store address value).byte (address.toNat + 2) =
      UInt8.ofNat (value.toNat / 65536) := by
    rw [byte_store value _ inside, if_neg (by omega), if_pos rfl]
  have fourth : (memory.store address value).byte (address.toNat + 3) =
      UInt8.ofNat (value.toNat / 16777216) := by
    rw [byte_store value _ inside, if_pos rfl]
  simp only [load, first, second, third, fourth, UInt8.toNat_ofNat']
  apply BitVec.eq_of_toNat_eq
  rw [BitVec.toNat_ofNat]
  omega

theorem load_congr {address : Word}
    (same : ∀ index, address.toNat ≤ index → index < address.toNat + 4 →
      memory.byte index = other.byte index) : memory.load address = other.load address := by
  simp only [load, same address.toNat (by omega) (by omega),
    same (address.toNat + 1) (by omega) (by omega), same (address.toNat + 2) (by omega) (by omega),
    same (address.toNat + 3) (by omega) (by omega)]

/-- The given bytes stand from an index on. -/
def Holds (memory : Memory) (index : Nat) : Bytes → Prop
  | [] => True
  | value :: rest => memory.byte index = value ∧ memory.Holds (index + 1) rest

theorem Holds.congr {index : Nat} {content : Bytes} (holds : memory.Holds index content)
    (same : ∀ place, index ≤ place → place < index + content.length →
      other.byte place = memory.byte place) : other.Holds index content := by
  induction content generalizing index with
  | nil => trivial
  | cons value rest induction =>
      simp only [List.length_cons] at same
      refine ⟨(same index (by omega) (by omega)).trans holds.1, ?_⟩
      exact induction holds.2 fun place above below => same place (by omega) (by omega)

@[simp] theorem size_store_bytes (index : Nat) (content : Bytes) :
    (memory.storeBytes index content).size = memory.size := by
  induction content generalizing memory index with
  | nil => rfl
  | cons value rest induction => rw [storeBytes, induction, Array.size_setIfInBounds]

theorem byte_store_bytes_other {index place : Nat} {content : Bytes}
    (inside : index + content.length ≤ memory.size)
    (outside : place < index ∨ index + content.length ≤ place) :
    (memory.storeBytes index content).byte place = memory.byte place := by
  induction content generalizing memory index with
  | nil => rfl
  | cons value rest induction =>
      simp only [List.length_cons] at inside outside
      rw [storeBytes, induction (by rw [Array.size_setIfInBounds]; omega) (by omega),
        byte_set _ _ (by omega), if_neg (by omega)]

theorem holds_store_bytes {index : Nat} {content : Bytes}
    (inside : index + content.length ≤ memory.size) :
    (memory.storeBytes index content).Holds index content := by
  induction content generalizing memory index with
  | nil => trivial
  | cons value rest induction =>
      simp only [List.length_cons] at inside
      refine ⟨?_, induction (by rw [Array.size_setIfInBounds]; omega)⟩
      rw [storeBytes, byte_store_bytes_other (by rw [Array.size_setIfInBounds]; omega) (by omega),
        byte_set _ _ (by omega), if_pos rfl]

theorem text_from_holds {index : Nat} {text : Bytes} (found : Bytes)
    (holds : memory.Holds index (text ++ [0])) (visible : ∀ value ∈ text, value ≠ 0)
    (inside : index + text.length < memory.size) :
    memory.textFrom index found = some (found.reverse ++ text) := by
  induction text generalizing index found with
  | nil =>
      rw [List.length_nil, Nat.add_zero] at inside
      rw [textFrom, if_pos inside, if_pos holds.1, List.append_nil]
  | cons value rest induction =>
      simp only [List.length_cons] at inside
      obtain ⟨here, later⟩ := holds
      have some := visible value (by simp)
      rw [textFrom, if_pos (by omega), here, if_neg some,
        induction (value :: found) later (fun other member => visible other (by simp [member]))
          (by omega)]
      simp

theorem text_of_holds {address : Word} {text : Bytes}
    (holds : memory.Holds address.toNat (text ++ [0])) (visible : ∀ value ∈ text, value ≠ 0)
    (inside : address.toNat + text.length < memory.size) : memory.text? address = some text :=
  text_from_holds [] holds visible inside

theorem slice_congr {index count : Nat} (sameSize : memory.size = other.size)
    (same : ∀ place, index ≤ place → place < index + count →
      memory.byte place = other.byte place) : memory.slice index count = other.slice index count := by
  unfold slice
  congr 1
  apply Array.ext
  · simp [sameSize]
  · intro offset inFirst inSecond
    simp only [Array.size_extract] at inFirst inSecond
    have here := same (index + offset) (by omega) (by omega)
    unfold byte at here
    rw [Array.getD_eq_getD_getElem?, Array.getD_eq_getD_getElem?, Array.getElem?_eq_getElem (by omega),
      Array.getElem?_eq_getElem (by omega)] at here
    simpa using here

end ExprCompiler.Memory
