import ExprCompiler.Proofs.Machine.Reachable

/-!
Watched execution. Instructions and routines are written once more, now so that each access to a
register or to memory is shown to a watch, which lets it happen only inside: a register has one of
the eight places of the register file, and all bytes of a word are bytes of memory. A watched step
comes to the same as a step that nobody watches, from any state. So the machine makes no access
outside, and what memory holds there by default is never looked at.
-/

namespace ExprCompiler

inductive Access where
  | register (place : Nat)
  | bytes (first count : Nat)

def Access.Inside (size : Nat) : Access → Prop
  | register place => place < 8
  | bytes first count => first + count ≤ size

instance (size : Nat) (access : Access) : Decidable (access.Inside size) :=
  match access with
  | .register place => inferInstanceAs (Decidable (place < 8))
  | .bytes first count => inferInstanceAs (Decidable (first + count ≤ size))

namespace Watched

/-- What an access gives, if it is inside. -/
def watch {Given : Type} (core : Core) (access : Access) (given : Given) : Option Given :=
  if access.Inside core.memory.size then some given else none

section Accesses

variable (core : Core)

def get (register : Register) : Option Word :=
  watch core (.register (Register.all.idxOf register)) (core.get register)

def set (register : Register) (value : Word) : Option Core :=
  watch core (.register (Register.all.idxOf register)) (core.set register value)

def read (address : Word) : Option (Except Fault Word) :=
  if core.memory.holdsWord address then
    watch core (.bytes address.toNat 4) (.ok (core.memory.load address))
  else some (.error (.badRead address))

def write (address value : Word) : Option Effect :=
  if core.memory.holdsWord address then
    watch core (.bytes address.toNat 4)
      ⟨{ core with memory := core.memory.store address value }, none⟩
  else some ⟨core, some (.badWrite address)⟩

def textFrom (index : Nat) (found : Bytes) : Option (Option Bytes) :=
  if index < core.memory.size then do
    let byte ← watch core (.bytes index 1) (core.memory.byte index)
    if byte = 0 then some (some found.reverse) else textFrom (index + 1) (byte :: found)
  else some none
termination_by core.memory.size - index

def readText (address : Word) : Option (Except Fault Bytes) := do
  match ← textFrom core address.toNat [] with
  | some text => some (.ok text)
  | none => some (.error (.unterminatedText address))

def argument (number : Nat) : Option (Except Fault Word) := do
  let top ← get core .esp
  read core (top + BitVec.ofNat 32 (4 * number))

theorem get_eq (register : Register) : get core register = some (core.get register) := by
  cases register <;> rfl

theorem set_eq (register : Register) (value : Word) :
    set core register value = some (core.set register value) := by
  cases register <;> rfl

theorem read_eq (address : Word) : read core address = some (core.read address) := by
  unfold read Core.read
  split
  · rename_i holds
    exact if_pos (of_decide_eq_true holds)
  · rfl

theorem write_eq (address value : Word) :
    write core address value = some (core.write address value) := by
  unfold write Core.write
  split
  · rename_i holds
    exact if_pos (of_decide_eq_true holds)
  · rfl

theorem text_from_eq (index : Nat) (found : Bytes) :
    textFrom core index found = some (core.memory.textFrom index found) := by
  fun_induction Memory.textFrom core.memory index found with
  | case1 index found inside isEnd =>
      have allowed : watch core (.bytes index 1) (core.memory.byte index) = some 0 := by
        rw [← isEnd]
        exact if_pos inside
      rw [textFrom, if_pos inside, allowed]
      rfl
  | case2 index found inside goesOn induction =>
      have allowed : watch core (.bytes index 1) (core.memory.byte index) =
          some (core.memory.byte index) := if_pos inside
      rw [textFrom, if_pos inside, allowed, Option.bind_eq_bind, Option.bind_some, if_neg goesOn,
        induction]
  | case3 index found outside => rw [textFrom, if_neg outside]

theorem read_text_eq (address : Word) : readText core address = some (core.readText address) := by
  rw [readText, text_from_eq, Core.readText, Memory.text?]
  cases core.memory.textFrom address.toNat [] <;> rfl

theorem argument_eq (number : Nat) : argument core number = some (core.argument number) := by
  rw [argument, get_eq]
  exact read_eq core _

end Accesses

section Instructions

variable (image : Image) (core : Core)

def push (value : Word) : Option Effect := do
  let top ← get core .esp
  let moved ← set core .esp (top - 4)
  write moved (top - 4) value

def extendSign : Option Core := do
  let value ← get core .eax
  set core .edx (if value.slt 0 then BitVec.allOnes 32 else 0)

def divide (divisor : Word) : Option Effect := do
  let high ← get core .edx
  let low ← get core .eax
  let dividend := (high ++ low : BitVec 64).toInt
  let quotient := dividend.tdiv divisor.toInt
  let remainder := dividend.tmod divisor.toInt
  if divisor = 0 then some ⟨core, some .divisionByZero⟩
  else if quotient < -2147483648 || 2147483647 < quotient then
    some ⟨core, some .quotientOverflow⟩
  else
    let divided ← set core .eax (BitVec.ofInt 32 quotient)
    let after ← set divided .edx (BitVec.ofInt 32 remainder)
    some ⟨after, none⟩

def address (base : AddressBase) (displacement : Int) : Option (Except Fault Word) :=
  match base with
  | .register source => do
      let start ← get core source
      some (.ok (start + BitVec.ofInt 32 displacement))
  | .label name => some ((image.resolve name).map fun start => start + BitVec.ofInt 32 displacement)

def load : Operand → Option (Except Fault Word)
  | .register source => do
      let value ← get core source
      some (.ok value)
  | .immediate value => some (.ok (BitVec.ofInt 32 value))
  | .label name => some (image.resolve name)
  | .memory _ base displacement => do
      match ← address image core base displacement with
      | .ok place => read core place
      | .error fault => some (.error fault)

def store (operand : Operand) (value : Word) : Option Effect :=
  match operand with
  | .register target => do
      let after ← set core target value
      some ⟨after, none⟩
  | .memory _ base displacement => do
      match ← address image core base displacement with
      | .ok place => write core place value
      | .error fault => some ⟨core, some fault⟩
  | _ => some ⟨core, some (.notWritable operand)⟩

def withWord (operand : Operand) (next : Word → Option Effect) : Option Effect := do
  match ← load image core operand with
  | .ok value => next value
  | .error fault => some ⟨core, some fault⟩

def combine (target source : Operand) (operation : Word → Word → Word) : Option Effect :=
  withWord image core target fun first =>
    withWord image core source fun second => store image core target (operation first second)

def popInto (target : Operand) : Option Effect := do
  let top ← get core .esp
  match ← read core top with
  | .ok value => do
      let moved ← set core .esp (top + 4)
      store image moved target value
  | .error fault => some ⟨core, some fault⟩

def compute (instruction : Instruction) : Option Effect :=
  match instruction.mnemonic, instruction.operands with
  | .nop, _ => some ⟨core, none⟩
  | .mov, [target, source] =>
      withWord image core source fun value => store image core target value
  | .push, [source] => withWord image core source fun value => push core value
  | .pop, [target] => popInto image core target
  | .add, [target, source] => combine image core target source fun first second => first + second
  | .sub, [target, source] => combine image core target source fun first second => first - second
  | .imul, [target, source] => combine image core target source fun first second => first * second
  | .neg, [target] => withWord image core target fun value => store image core target (-value)
  | .cdq, _ => do
      let after ← extendSign core
      some ⟨after, none⟩
  | .idiv, [divisor] => withWord image core divisor fun value => divide core value
  | .other name, _ => some ⟨core, some (.unknownInstruction name)⟩
  | mnemonic, _ =>
      some ⟨core, some (.operandCount mnemonic.text (Image.operandCount mnemonic)
        instruction.line)⟩

theorem push_eq (value : Word) : push core value = some (core.push value) := by
  rw [push, get_eq, Option.bind_eq_bind, Option.bind_some, set_eq]
  exact write_eq _ _ _

theorem extend_sign_eq : extendSign core = some core.extendSign := by
  rw [extendSign, get_eq, Option.bind_eq_bind, Option.bind_some, set_eq]
  rfl

theorem divide_eq (divisor : Word) : divide core divisor = some (core.divide divisor) := by
  simp only [divide, get_eq, set_eq, Option.bind_eq_bind, Option.bind_some, Core.divide]
  split
  · rfl
  · split <;> rfl

theorem address_eq (base : AddressBase) (displacement : Int) :
    address image core base displacement = some (image.address core base displacement) := by
  cases base with
  | register source =>
      rw [address, get_eq]
      rfl
  | label name => rfl

theorem load_eq (operand : Operand) : load image core operand = some (image.load core operand) := by
  cases operand with
  | register source =>
      rw [load, get_eq]
      rfl
  | immediate value => rfl
  | label name => rfl
  | memory _ base displacement =>
      rw [load, address_eq, Option.bind_eq_bind, Option.bind_some, Image.load]
      cases image.address core base displacement with
      | ok place => exact read_eq core place
      | error fault => rfl

theorem store_eq (operand : Operand) (value : Word) :
    store image core operand value = some (image.store core operand value) := by
  cases operand with
  | register target =>
      rw [store, set_eq]
      rfl
  | memory _ base displacement =>
      rw [store, address_eq, Option.bind_eq_bind, Option.bind_some, Image.store]
      cases image.address core base displacement with
      | ok place => exact write_eq core place value
      | error fault => rfl
  | immediate value => rfl
  | label name => rfl

theorem with_word_eq {next : Word → Option Effect} {plain : Word → Effect}
    (same : ∀ value, next value = some (plain value)) (operand : Operand) :
    withWord image core operand next = some (image.withWord core operand plain) := by
  rw [withWord, load_eq, Option.bind_eq_bind, Option.bind_some, Image.withWord]
  cases image.load core operand with
  | ok value => exact same value
  | error fault => rfl

theorem combine_eq (target source : Operand) (operation : Word → Word → Word) :
    combine image core target source operation =
      some (image.combine core target source operation) := by
  apply with_word_eq
  intro first
  apply with_word_eq
  intro second
  exact store_eq image core target _

theorem pop_into_eq (target : Operand) :
    popInto image core target = some (image.popInto core target) := by
  simp only [popInto, get_eq, read_eq, set_eq, Option.bind_eq_bind, Option.bind_some,
    Image.popInto]
  cases core.read (core.get .esp) with
  | error fault => rfl
  | ok value =>
      exact store_eq image _ target value

theorem compute_eq (instruction : Instruction) :
    compute image core instruction = some (image.compute instruction core) := by
  obtain ⟨line, mnemonic, operands⟩ := instruction
  unfold compute
  dsimp only
  split
  · rfl
  · exact with_word_eq image core (fun value => store_eq image core _ value) _
  · exact with_word_eq image core (push_eq core) _
  · exact pop_into_eq image core _
  · exact combine_eq image core _ _ _
  · exact combine_eq image core _ _ _
  · exact combine_eq image core _ _ _
  · exact with_word_eq image core (fun value => store_eq image core _ _) _
  · rw [extend_sign_eq]
    rfl
  · exact with_word_eq image core (divide_eq core) _
  · rfl
  · -- What is left has a wrong number of operands, or is no work at all.
    unfold Image.compute
    split <;> first | rfl | simp_all

end Instructions

section Routines

/-- Goes on with what a look finds, or fails as the look does. -/
def andThen {Found Given : Type} (look : Option (Except Fault Found))
    (next : Found → Option (Except Fault Given)) : Option (Except Fault Given) := do
  match ← look with
  | .error fault => some (.error fault)
  | .ok found => next found

theorem and_then_eq {Found Given : Type} {look : Option (Except Fault Found)}
    {next : Found → Option (Except Fault Given)} {plain : Except Fault Found}
    {plainNext : Found → Except Fault Given} (found : look = some plain)
    (same : ∀ found, next found = some (plainNext found)) :
    andThen look next = some (plain >>= plainNext) := by
  rw [andThen, found, Option.bind_eq_bind, Option.bind_some]
  cases plain with
  | error fault => rfl
  | ok given => exact same given

variable (core : Core)

def formatWith (next : Nat) : Bytes → Option (Except Fault Bytes)
  | [] => some (.ok [])
  | 0x25 :: letter :: rest =>
      if isNumberLetter letter then do
        match ← argument core next with
        | .error fault => some (.error fault)
        | .ok value => do
            let text ← formatWith (next + 1) rest
            some (text.map fun text => value.text ++ text)
      else do
        let text ← formatWith next rest
        if letter = 0x25 then some (text.map fun text => 0x25 :: text)
        else some (text.map fun text => 0x25 :: letter :: text)
  | byte :: rest => do
      let text ← formatWith next rest
      some (text.map fun text => byte :: text)

def printRoutine : Option Effect := do
  let text := andThen (argument core 0) fun address =>
    andThen (readText core address) fun format => formatWith core 1 format
  match ← text with
  | .error fault => some ⟨core, some fault⟩
  | .ok written => do
      let result ← set core .eax (BitVec.ofNat 32 written.length)
      some ⟨{ result with written := written :: result.written }, none⟩

def scanArgument (number : Nat) : Option Effect := do
  match ← argument core number with
  | .error fault => some ⟨core, some fault⟩
  | .ok address =>
      match scanWord core.unread with
      | (.error problem, rest) => some ⟨{ core with unread := rest }, some (.input problem)⟩
      | (.ok value, rest) => write { core with unread := rest } address value

def scanWith (stored : Nat) (core : Core) : Bytes → Option Effect
  | 0x25 :: letter :: rest =>
      if isNumberLetter letter then do
        match ← scanArgument core (stored + 1) with
        | ⟨after, none⟩ => scanWith (stored + 1) after rest
        | ⟨after, some fault⟩ => some ⟨after, some fault⟩
      else scanWith stored core (letter :: rest)
  | _ :: rest => scanWith stored core rest
  | [] => do
      let after ← set core .eax (BitVec.ofNat 32 stored)
      some ⟨after, none⟩

def scanRoutine : Option Effect := do
  let format := andThen (argument core 0) fun address => readText core address
  match ← format with
  | .error fault => some ⟨core, some fault⟩
  | .ok text => scanWith 0 core text

def routines : Table (Core → Option Effect) :=
  [(utf8 "printf", printRoutine), (utf8 "scanf", scanRoutine)]

theorem format_with_eq (next : Nat) (format : Bytes) :
    formatWith core next format = some (ExprCompiler.formatWith core.argument next format) := by
  match format with
  | [] => rfl
  | [byte] =>
      rw [formatWith, ExprCompiler.formatWith]
      · rfl
      all_goals simp
  | byte :: letter :: rest =>
      by_cases percent : byte = 0x25
      · subst percent
        rw [formatWith, ExprCompiler.formatWith]
        split
        · rw [argument_eq, Option.bind_eq_bind, Option.bind_some]
          cases core.argument next with
          | error fault => rfl
          | ok value =>
              dsimp only
              rw [format_with_eq (next + 1) rest]
              rfl
        · rw [format_with_eq next rest, Option.bind_eq_bind, Option.bind_some]
          split <;> rfl
      · rw [formatWith, ExprCompiler.formatWith, format_with_eq next (letter :: rest)]
        · rfl
        all_goals simp [percent]

theorem print_routine_eq : printRoutine core = some (ExprCompiler.printRoutine core) := by
  have text := and_then_eq (argument_eq core 0) fun address =>
    and_then_eq (read_text_eq core address) fun format => format_with_eq core 1 format
  simp only [printRoutine, text, set_eq, Option.bind_eq_bind, Option.bind_some,
    ExprCompiler.printRoutine]
  split <;> rename_i outcome <;> rw [outcome]

theorem scan_argument_eq (number : Nat) :
    scanArgument core number = some (ExprCompiler.scanArgument core number) := by
  rw [scanArgument, argument_eq, Option.bind_eq_bind, Option.bind_some,
    ExprCompiler.scanArgument]
  cases core.argument number with
  | error fault => rfl
  | ok address =>
      rcases scanWord core.unread with ⟨problem | value, rest⟩
      · rfl
      · exact write_eq _ address value

theorem scan_with_eq (stored : Nat) (core : Core) (format : Bytes) :
    scanWith stored core format = some (ExprCompiler.scanWith stored core format) := by
  match format with
  | [] =>
      rw [scanWith, set_eq]
      rfl
  | [byte] =>
      rw [scanWith, ExprCompiler.scanWith]
      · exact scan_with_eq stored core []
      all_goals simp
  | byte :: letter :: rest =>
      by_cases percent : byte = 0x25
      · subst percent
        rw [scanWith, ExprCompiler.scanWith]
        split
        · rw [scan_argument_eq, Option.bind_eq_bind, Option.bind_some]
          rcases ExprCompiler.scanArgument core (stored + 1) with ⟨after, _ | fault⟩
          · exact scan_with_eq (stored + 1) after rest
          · rfl
        · exact scan_with_eq stored core (letter :: rest)
      · rw [scanWith, ExprCompiler.scanWith]
        · exact scan_with_eq stored core (letter :: rest)
        all_goals simp [percent]

theorem scan_routine_eq : scanRoutine core = some (ExprCompiler.scanRoutine core) := by
  have format := and_then_eq (argument_eq core 0) fun address => read_text_eq core address
  simp only [scanRoutine, format, Option.bind_eq_bind, Option.bind_some, ExprCompiler.scanRoutine]
  split <;> rename_i outcome <;> rw [outcome]
  exact scan_with_eq 0 core _

end Routines

section Steps

variable (image : Image)

def callRoutine (name : Bytes) (core : Core) : Option Effect :=
  match routines.find? name with
  | some routine => routine core
  | none => some ⟨core, some (.unsupportedRoutine name)⟩

def onCore (machine : Machine) (work : Core → Option Effect) : Option (Machine × Option Fault) :=
  match machine with
  | ⟨core, ip, halted, steps, frames⟩ => do
      let effect ← work core
      some (⟨effect.core, ip, halted, steps, frames⟩, effect.fault)

def call (name : Bytes) (machine : Machine) : Option (Machine × Option Fault) :=
  match image.program.labels.find? name with
  | some target => some (machine.enter target, none)
  | none =>
      if image.program.isImported name then onCore machine (callRoutine name)
      else some (machine, some (.unresolvedSymbol name))

def execute (instruction : Instruction) (machine : Machine) : Option (Machine × Option Fault) :=
  match instruction.mnemonic, instruction.operands with
  | .call, [.label name] => call image name machine
  | .call, [operand] => some (machine, some (.callTarget operand))
  | .ret, _ => some (machine.leave, none)
  | _, _ => onCore machine fun core => compute image core instruction

/-- A step under the watch. It has no result if an access would be outside. -/
def step (machine : Machine) : Option (Machine × Option RunError) :=
  if machine.halted then some (machine, none)
  else
    match image.fetch? machine.ip with
    | none => some ({ machine with halted := true }, none)
    | some instruction =>
        if (image.stepLimit : Int) ≤ machine.steps then
          some (machine, some ⟨none, .stepLimit image.stepLimit⟩)
        else do
          match ← execute image instruction machine.advance with
          | (after, none) => some (after, none)
          | (after, some fault) => some (after, some ⟨some instruction, fault⟩)

variable {image : Image}

theorem call_routine_eq (standard : image.routines = standardRoutines) (name : Bytes)
    (core : Core) : callRoutine name core = some (image.callRoutine name core) := by
  unfold callRoutine Image.callRoutine
  simp only [standard, routines, standardRoutines, Table.find?]
  by_cases prints : utf8 "printf" = name
  · simp only [if_pos prints]
    exact print_routine_eq core
  · by_cases scans : utf8 "scanf" = name
    · simp only [if_neg prints, if_pos scans]
      exact scan_routine_eq core
    · simp only [if_neg prints, if_neg scans]

theorem on_core_eq (machine : Machine) {work : Core → Option Effect} {plain : Core → Effect}
    (same : ∀ core, work core = some (plain core)) :
    onCore machine work = some (machine.onCore plain) := by
  obtain ⟨core, ip, halted, steps, frames⟩ := machine
  rw [onCore, same]
  rfl

theorem call_eq (standard : image.routines = standardRoutines) (name : Bytes)
    (machine : Machine) : call image name machine = some (machine.call image name) := by
  unfold call Machine.call
  cases image.program.labels.find? name with
  | some target => rfl
  | none =>
      dsimp only
      split
      · exact on_core_eq machine (call_routine_eq standard name)
      · rfl

theorem execute_eq (standard : image.routines = standardRoutines) (instruction : Instruction)
    (machine : Machine) :
    execute image instruction machine = some (machine.execute image instruction) := by
  obtain ⟨line, mnemonic, operands⟩ := instruction
  have worked := on_core_eq machine fun core => compute_eq image core ⟨line, mnemonic, operands⟩
  cases mnemonic with
  | call =>
      match operands with
      | [] => exact worked
      | [operand] =>
          cases operand with
          | label name => exact call_eq standard name machine
          | register | immediate | memory => rfl
      | first :: _ :: _ => cases first <;> exact worked
  | ret => rfl
  | nop | mov | push | pop | add | sub | imul | neg | cdq | idiv | other => exact worked

/-- A step that is watched makes no access outside, whatever the state of the machine is. -/
theorem step_eq (standard : image.routines = standardRoutines) (machine : Machine) :
    step image machine = some (machine.step image) := by
  unfold step Machine.step
  split
  · rfl
  · cases image.fetch? machine.ip with
    | none => rfl
    | some instruction =>
        dsimp only
        split
        · rfl
        · rw [execute_eq standard, Option.bind_eq_bind, Option.bind_some]
          rcases machine.advance.execute image instruction with ⟨after, _ | fault⟩ <;> rfl

end Steps

end Watched
end ExprCompiler
