import ExprCompiler.Proofs.Machine.Faults
import ExprCompiler.Proofs.Machine.Memory
import ExprCompiler.Proofs.Machine.Straight

/-!
Instructions and the standard routines are blind to the output: what was written before neither
changes what they do nor is changed by them. They leave the size of memory alone.
-/

namespace ExprCompiler

/-- A core with some texts written before its own. -/
def Core.behind (core : Core) (earlier : List Bytes) : Core :=
  { core with written := core.written ++ earlier }

def Effect.behind (effect : Effect) (earlier : List Bytes) : Effect :=
  ⟨effect.core.behind earlier, effect.fault⟩

def attempt {Found : Type} (look : Core → Except Fault Found) (next : Found → Core → Effect)
    (core : Core) : Effect :=
  match look core with
  | .error fault => ⟨core, some fault⟩
  | .ok found => next found core

structure Blind (work : Core → Effect) : Prop where
  output : ∀ core earlier, work (core.behind earlier) = (work core).behind earlier
  size : ∀ core, (work core).core.memory.size = core.memory.size

namespace Blind

theorem nothing (fault : Option Fault) : Blind fun core => ⟨core, fault⟩ where
  output _ _ := rfl
  size _ := rfl

theorem setting (register : Register) (value : Core → Word)
    (blind : ∀ core earlier, value (core.behind earlier) = value core) :
    Blind fun core => ⟨core.set register (value core), none⟩ where
  output core earlier := by
    rw [blind]
    rfl
  size _ := rfl

theorem looking {Found : Type} (look : Core → Found) (next : Found → Core → Effect)
    (blind : ∀ core earlier, look (core.behind earlier) = look core)
    (continued : ∀ found, Blind (next found)) : Blind fun core => next (look core) core where
  output core earlier := by
    rw [blind]
    exact (continued _).output core earlier
  size core := (continued _).size core

theorem changing (change : Core → Core) {next : Core → Effect}
    (output : ∀ core earlier, change (core.behind earlier) = (change core).behind earlier)
    (size : ∀ core, (change core).memory.size = core.memory.size) (continued : Blind next) :
    Blind fun core => next (change core) where
  output core earlier := by
    rw [output]
    exact continued.output _ earlier
  size core := by rw [continued.size, size]

/-- Work that goes on with what a look finds, or fails as the look does. -/
theorem attempting {Found : Type} (look : Core → Except Fault Found) {next : Found → Core → Effect}
    (blind : ∀ core earlier, look (core.behind earlier) = look core)
    (continued : ∀ found, Blind (next found)) : Blind (attempt look next) where
  output core earlier := by
    unfold attempt
    rw [blind]
    cases look core with
    | ok found => exact (continued found).output core earlier
    | error fault => rfl
  size core := by
    unfold attempt
    cases look core with
    | ok found => exact (continued found).size core
    | error fault => rfl

theorem writing (address value : Word) : Blind fun core => core.write address value where
  output core earlier := by
    unfold Core.write Core.behind
    dsimp only
    split <;> rfl
  size core := by
    unfold Core.write
    split
    · exact Memory.size_store _ _
    · rfl

theorem and_then {first next : Core → Effect} (before : Blind first) (continued : Blind next) :
    Blind fun core => (first core).andThen next where
  output core earlier := by
    rw [before.output]
    obtain ⟨after, fault⟩ := first core
    cases fault with
    | none => exact continued.output after earlier
    | some fault => rfl
  size core := by
    have same := before.size core
    revert same
    obtain ⟨after, fault⟩ := first core
    intro same
    cases fault with
    | none => exact (continued.size after).trans same
    | some fault => exact same

end Blind

namespace Core

theorem blind_push (value : Word) : Blind fun core => core.push value := by
  apply Blind.looking (fun core => core.get .esp - 4)
    (fun top core => (core.set .esp top).write top value) fun _ _ => rfl
  intro top
  exact Blind.changing (fun core => core.set .esp top) (fun _ _ => rfl) (fun _ => rfl)
    (Blind.writing top value)

theorem blind_divide (divisor : Word) : Blind fun core => core.divide divisor := by
  apply Blind.looking (fun core => (core.get .edx ++ core.get .eax : BitVec 64).toInt)
    (fun dividend core =>
      if divisor = 0 then ⟨core, some .divisionByZero⟩
      else if dividend.tdiv divisor.toInt < -2147483648 ||
          2147483647 < dividend.tdiv divisor.toInt then ⟨core, some .quotientOverflow⟩
      else
        ⟨(core.set .eax (BitVec.ofInt 32 (dividend.tdiv divisor.toInt))).set .edx
          (BitVec.ofInt 32 (dividend.tmod divisor.toInt)), none⟩) fun _ _ => rfl
  intro dividend
  split
  · exact Blind.nothing _
  · split
    · exact Blind.nothing _
    · exact Blind.changing (fun core => core.set .eax _) (fun _ _ => rfl) (fun _ => rfl)
        (Blind.setting .edx (fun _ => _) fun _ _ => rfl)

end Core

namespace Image

variable (image : Image)

theorem address_behind (core : Core) (earlier : List Bytes) (base : AddressBase)
    (displacement : Int) :
    image.address (core.behind earlier) base displacement =
      image.address core base displacement := by
  cases base <;> rfl

theorem load_behind (core : Core) (earlier : List Bytes) (operand : Operand) :
    image.load (core.behind earlier) operand = image.load core operand := by
  cases operand with
  | memory size base displacement =>
      simp only [load, address_behind]
      rfl
  | register | immediate | label => rfl

theorem blind_store (operand : Operand) (value : Word) :
    Blind fun core => image.store core operand value := by
  cases operand with
  | register target => exact Blind.setting target (fun _ => value) fun _ _ => rfl
  | memory size base displacement =>
      have attempted (core : Core) : image.store core (.memory size base displacement) value =
          attempt (fun core => image.address core base displacement)
            (fun address core => core.write address value) core := by
        simp only [store, attempt]
        cases image.address core base displacement <;> rfl
      simp only [attempted]
      apply Blind.attempting
      · intro core earlier
        exact image.address_behind core earlier base displacement
      · intro address
        exact Blind.writing address value
  | immediate | label => exact Blind.nothing _

theorem blind_with_word (operand : Operand) {next : Word → Core → Effect}
    (continued : ∀ value, Blind (next value)) :
    Blind fun core => image.withWord core operand fun value => next value core := by
  have attempted (core : Core) : image.withWord core operand (fun value => next value core) =
      attempt (fun core => image.load core operand) next core := by
    simp only [withWord, attempt]
    cases image.load core operand <;> rfl
  simp only [attempted]
  apply Blind.attempting _ _ continued
  intro core earlier
  exact image.load_behind core earlier operand

theorem blind_combine (target source : Operand) (operation : Word → Word → Word) :
    Blind fun core => image.combine core target source operation := by
  apply image.blind_with_word target
  intro first
  apply image.blind_with_word source
  intro second
  exact image.blind_store target (operation first second)

theorem blind_pop (target : Operand) : Blind fun core => image.popInto core target := by
  have attempted (core : Core) : image.popInto core target =
      attempt (fun core => core.read (core.get .esp))
        (fun value core => image.store (core.set .esp (core.get .esp + 4)) target value) core := by
    simp only [popInto, attempt]
    cases core.read (core.get .esp) <;> rfl
  simp only [attempted]
  apply Blind.attempting _ fun _ _ => rfl
  intro value
  exact Blind.changing (fun core => core.set .esp (core.get .esp + 4)) (fun _ _ => rfl)
    (fun _ => rfl) (image.blind_store target value)

theorem blind_compute (instruction : Instruction) : Blind (image.compute instruction) := by
  unfold compute
  split
  · exact Blind.nothing none
  · exact image.blind_with_word _ fun value => image.blind_store _ value
  · exact image.blind_with_word _ Core.blind_push
  · exact image.blind_pop _
  · exact image.blind_combine _ _ _
  · exact image.blind_combine _ _ _
  · exact image.blind_combine _ _ _
  · exact image.blind_with_word _ fun value => image.blind_store _ (-value)
  · exact Blind.setting .edx _ fun _ _ => rfl
  · exact image.blind_with_word _ Core.blind_divide
  · exact Blind.nothing _
  · exact Blind.nothing _

end Image

section Routines

theorem blind_print : Blind printRoutine := by
  have attempted : printRoutine = attempt
      (fun core => do
        let address ← core.argument 0
        let format ← core.readText address
        formatWith core.argument 1 format)
      (fun written core =>
        ⟨{ core.set .eax (BitVec.ofNat 32 written.length) with
          written := written :: core.written }, none⟩) := by
    funext core
    simp only [printRoutine, attempt]
    split <;> rename_i outcome <;> rw [outcome]
    rfl
  rw [attempted]
  apply Blind.attempting _ fun _ _ => rfl
  intro written
  exact ⟨fun _ _ => rfl, fun _ => rfl⟩

theorem blind_scan_argument (number : Nat) : Blind fun core => scanArgument core number where
  output core earlier := by
    have same : (core.behind earlier).argument number = core.argument number := rfl
    have unread : (core.behind earlier).unread = core.unread := rfl
    unfold scanArgument
    rw [same, unread]
    cases core.argument number with
    | error fault => rfl
    | ok address =>
        rcases scanWord core.unread with ⟨problem | value, rest⟩
        · rfl
        · exact (Blind.writing address value).output { core with unread := rest } earlier
  size core := by
    unfold scanArgument
    cases core.argument number with
    | error fault => rfl
    | ok address =>
        rcases scanWord core.unread with ⟨problem | value, rest⟩
        · rfl
        · exact (Blind.writing address value).size { core with unread := rest }

theorem blind_scan_with (stored : Nat) (format : Bytes) :
    Blind fun core => scanWith stored core format := by
  match format with
  | [] => exact Blind.setting .eax (fun _ => BitVec.ofNat 32 stored) fun _ _ => rfl
  | [byte] =>
      simp only [scan_with_last]
      exact blind_scan_with stored []
  | byte :: letter :: rest =>
      by_cases percent : byte = 0x25
      · subst percent
        simp only [scanWith]
        split
        · exact (blind_scan_argument (stored + 1)).and_then (blind_scan_with (stored + 1) rest)
        · exact blind_scan_with stored (letter :: rest)
      · simp only [scan_with_passed stored _ letter rest percent]
        exact blind_scan_with stored (letter :: rest)

theorem blind_scan : Blind scanRoutine := by
  have attempted : scanRoutine = attempt (fun core => do core.readText (← core.argument 0))
      (fun format core => scanWith 0 core format) := by
    funext core
    simp only [scanRoutine, attempt]
    split <;> rename_i outcome <;> rw [outcome]
  rw [attempted]
  apply Blind.attempting _ (fun _ _ => rfl)
  exact blind_scan_with 0

theorem blind_call_routine (image : Image) (standard : image.routines = standardRoutines)
    (name : Bytes) : Blind (image.callRoutine name) := by
  unfold Image.callRoutine
  split
  · rename_i routine found
    rw [standard, standardRoutines, Table.find?] at found
    split at found
    · cases found
      exact blind_print
    · rw [Table.find?] at found
      split at found
      · cases found
        exact blind_scan
      · cases found
  · exact Blind.nothing _

end Routines

end ExprCompiler
