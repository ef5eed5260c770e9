import ExprCompiler.Proofs.Machine.Memory
import ExprCompiler.Proofs.Machine.Straight

/-!
The machine stack. As long as there is room between the data and the stack pointer, a push stores
its word below the pointer and a pop takes the word at it; everything below the data's end and
everything from the pointer up stays as it was.
-/

namespace ExprCompiler

-- Stores are told by their lemmas; comparing them byte by byte is slow.
attribute [local irreducible] Memory.store

namespace Core

def pushed (core : Core) (word : Word) : Core :=
  { core.set .esp (core.get .esp - 4) with
    memory := core.memory.store (core.get .esp - 4) word }

def popped (core : Core) (target : Register) : Core :=
  (core.set .esp (core.get .esp + 4)).set target (core.memory.load (core.get .esp))

def top (core : Core) : Nat := core.registers.esp.toNat

variable {core : Core}

theorem top_below (room : 4 ≤ core.top) : (core.get .esp - 4).toNat = core.top - 4 := by
  unfold top at room ⊢
  simp only [Core.get, Registers.get]
  bv_omega

theorem holds_below (room : 4 ≤ core.top) (inside : core.top ≤ core.memory.size) :
    core.memory.holdsWord (core.get .esp - 4) = true := by
  rw [Memory.holdsWord, top_below room]
  simp only [decide_eq_true_eq]
  omega

theorem push_effect (room : 4 ≤ core.top) (inside : core.top ≤ core.memory.size) (word : Word) :
    core.push word = ⟨core.pushed word, none⟩ := by
  have holds := holds_below room inside
  unfold push write
  rw [if_pos]
  · rfl
  · exact holds

theorem pop_effect (image : Image) (target : Register) (inside : core.top + 4 ≤ core.memory.size) :
    image.popInto core (.register target) = ⟨core.popped target, none⟩ := by
  have holds : core.memory.holdsWord (core.get .esp) = true := by
    rw [Memory.holdsWord, decide_eq_true_eq]
    exact inside
  simp only [Image.popInto, read, holds, if_true]
  rfl

section Pushed

variable (room : 4 ≤ core.top) (inside : core.top ≤ core.memory.size) (word : Word)

include room

theorem top_pushed : (core.pushed word).top = core.top - 4 := top_below room

include inside

theorem load_pushed : (core.pushed word).memory.load (core.pushed word).registers.esp = word :=
  Memory.load_store word (holds_below room inside)

theorem byte_pushed {index : Nat} (outside : index + 4 < core.top ∨ core.top ≤ index) :
    (core.pushed word).memory.byte index = core.memory.byte index := by
  apply Memory.byte_store_other word (holds_below room inside)
  rw [top_below room]
  omega

end Pushed

@[simp] theorem size_pushed (word : Word) : (core.pushed word).memory.size = core.memory.size :=
  Memory.size_store _ _

theorem popped_pushed (room : 4 ≤ core.top) (inside : core.top ≤ core.memory.size) (word : Word)
    (target : Register) :
    (core.pushed word).popped target =
      { core.set target word with memory := (core.pushed word).memory } := by
  have back : core.registers.esp - 4#32 + 4#32 = core.registers.esp := BitVec.sub_add_cancel _ _
  have loaded := load_pushed room inside word
  unfold popped
  rw [show (core.pushed word).get .esp = (core.pushed word).registers.esp from rfl, loaded]
  cases target <;> simp [pushed, set, Registers.set, Core.get, Registers.get, back]

end Core

/-- What code leaves alone that works on the stack above the data: the input and the output, the
registers that it does not use, the data, and the stack from the pointer up. -/
structure Keeps (floor : Nat) (before after : Core) : Prop where
  size : after.memory.size = before.memory.size
  unread : after.unread = before.unread
  written : after.written = before.written
  ecx : after.registers.ecx = before.registers.ecx
  ebp : after.registers.ebp = before.registers.ebp
  esi : after.registers.esi = before.registers.esi
  edi : after.registers.edi = before.registers.edi
  data : ∀ index < floor, after.memory.byte index = before.memory.byte index
  stack : ∀ index, before.top ≤ index → after.memory.byte index = before.memory.byte index

namespace Keeps

variable {floor : Nat} {first second third : Core}

theorem refl (core : Core) : Keeps floor core core :=
  ⟨rfl, rfl, rfl, rfl, rfl, rfl, rfl, fun _ _ => rfl, fun _ _ => rfl⟩

theorem trans (before : Keeps floor first second) (after : Keeps floor second third)
    (lower : second.top ≤ first.top) : Keeps floor first third where
  size := after.size.trans before.size
  unread := after.unread.trans before.unread
  written := after.written.trans before.written
  ecx := after.ecx.trans before.ecx
  ebp := after.ebp.trans before.ebp
  esi := after.esi.trans before.esi
  edi := after.edi.trans before.edi
  data := fun index inside => (after.data index inside).trans (before.data index inside)
  stack := fun index above =>
    (after.stack index (Nat.le_trans lower above)).trans (before.stack index above)

theorem pushed {core : Core} (room : floor + 4 ≤ core.top) (inside : core.top ≤ core.memory.size)
    (word : Word) : Keeps floor core (core.pushed word) :=
  ⟨Core.size_pushed word, rfl, rfl, rfl, rfl, rfl, rfl,
    fun _ below => Core.byte_pushed (by omega) inside word (by omega),
    fun _ above => Core.byte_pushed (by omega) inside word (.inr above)⟩

end Keeps

end ExprCompiler
