import ExprCompiler.Machine.State

/-!
Running instructions. A step takes one instruction; a run takes steps until the program returns from
its entry or something fails, and is bounded by the step limit. After a failure the machine stands
behind the instruction that failed.
-/

namespace ExprCompiler

namespace Core

/-- Pushes a word; the stack pointer moves also when the word cannot be stored. -/
def push (core : Core) (value : Word) : Effect :=
  let top := core.get .esp - 4
  (core.set .esp top).write top value

def extendSign (core : Core) : Core :=
  core.set .edx (if (core.get .eax).slt 0 then BitVec.allOnes 32 else 0)

/-- Divides edx and eax, taken as one signed number of 64 bits, by a signed word. -/
def divide (core : Core) (divisor : Word) : Effect :=
  let dividend := (core.get .edx ++ core.get .eax : BitVec 64).toInt
  let quotient := dividend.tdiv divisor.toInt
  let remainder := dividend.tmod divisor.toInt
  if divisor = 0 then ⟨core, some .divisionByZero⟩
  else if quotient < -2147483648 || 2147483647 < quotient then ⟨core, some .quotientOverflow⟩
  else
    ⟨(core.set .eax (BitVec.ofInt 32 quotient)).set .edx (BitVec.ofInt 32 remainder), none⟩

end Core

namespace Image

def resolve (image : Image) (name : Bytes) : Except Fault Word :=
  match image.symbols.find? name with
  | some address => .ok address
  | none => .error (.unresolvedSymbol name)

def address (image : Image) (core : Core) (base : AddressBase) (displacement : Int) :
    Except Fault Word :=
  match base with
  | .register source => .ok (core.get source + BitVec.ofInt 32 displacement)
  | .label name => (image.resolve name).map fun start => start + BitVec.ofInt 32 displacement

def load (image : Image) (core : Core) : Operand → Except Fault Word
  | .register source => .ok (core.get source)
  | .immediate value => .ok (BitVec.ofInt 32 value)
  | .label name => image.resolve name
  | .memory _ base displacement =>
      match image.address core base displacement with
      | .ok place => core.read place
      | .error fault => .error fault

def store (image : Image) (core : Core) (operand : Operand) (value : Word) : Effect :=
  match operand with
  | .register target => ⟨core.set target value, none⟩
  | .memory _ base displacement =>
      match image.address core base displacement with
      | .ok place => core.write place value
      | .error fault => ⟨core, some fault⟩
  | _ => ⟨core, some (.notWritable operand)⟩

@[inline]
def withWord (image : Image) (core : Core) (operand : Operand) (next : Word → Effect) : Effect :=
  match image.load core operand with
  | .ok value => next value
  | .error fault => ⟨core, some fault⟩

@[inline]
def combine (image : Image) (core : Core) (target source : Operand)
    (operation : Word → Word → Word) : Effect :=
  image.withWord core target fun first =>
    image.withWord core source fun second => image.store core target (operation first second)

def popInto (image : Image) (core : Core) (target : Operand) : Effect :=
  let top := core.get .esp
  match core.read top with
  | .ok value => image.store (core.set .esp (top + 4)) target value
  | .error fault => ⟨core, some fault⟩

/-- How many operands an instruction takes, where that is checked. -/
def operandCount : Mnemonic → Nat
  | .mov | .add | .sub | .imul => 2
  | .push | .pop | .neg | .idiv | .call => 1
  | _ => 0

/-- Carries out an instruction that is neither a call nor a return. -/
def compute (image : Image) (instruction : Instruction) (core : Core) : Effect :=
  match instruction.mnemonic, instruction.operands with
  | .nop, _ => ⟨core, none⟩
  | .mov, [target, source] =>
      image.withWord core source fun value => image.store core target value
  | .push, [source] => image.withWord core source fun value => core.push value
  | .pop, [target] => image.popInto core target
  | .add, [target, source] => image.combine core target source fun first second => first + second
  | .sub, [target, source] => image.combine core target source fun first second => first - second
  | .imul, [target, source] => image.combine core target source fun first second => first * second
  | .neg, [target] => image.withWord core target fun value => image.store core target (-value)
  | .cdq, _ => ⟨core.extendSign, none⟩
  | .idiv, [divisor] => image.withWord core divisor fun value => core.divide value
  | .other name, _ => ⟨core, some (.unknownInstruction name)⟩
  | mnemonic, _ =>
      ⟨core, some (.operandCount mnemonic.text (operandCount mnemonic) instruction.line)⟩

def callRoutine (image : Image) (name : Bytes) (core : Core) : Effect :=
  match image.routines.find? name with
  | some routine => routine core
  | none => ⟨core, some (.unsupportedRoutine name)⟩

def fetch? (image : Image) (index : Int) : Option Instruction :=
  if index < 0 then none else image.program.instructions[index.toNat]?

end Image

structure RunError where
  /-- The instruction that failed; there is none when the limit forbade one. -/
  instruction : Option Instruction
  fault : Fault
  deriving DecidableEq, Repr

def RunError.message (error : RunError) : Bytes :=
  match error.instruction with
  | some instruction =>
      utf8 "line " ++ Text.decimal instruction.line ++ utf8 ": " ++ instruction.text ++
        utf8 ": " ++ error.fault.message
  | none => error.fault.message

namespace Machine

def onCore (machine : Machine) (work : Core → Effect) : Machine × Option Fault :=
  match machine with
  | ⟨core, ip, halted, steps, frames⟩ =>
      let effect := work core
      (⟨effect.core, ip, halted, steps, frames⟩, effect.fault)

def enter (machine : Machine) (target : Nat) : Machine :=
  { machine with frames := some (machine.ip :: machine.frames.getD []), ip := target }

/-- Returns from the innermost call, or ends the program. -/
def leave (machine : Machine) : Machine :=
  match machine.frames with
  | some (index :: outer) => { machine with frames := some outer, ip := index }
  | _ => { machine with halted := true }

def call (image : Image) (name : Bytes) (machine : Machine) : Machine × Option Fault :=
  match image.program.labels.find? name with
  | some target => (machine.enter target, none)
  | none =>
      if image.program.isImported name then machine.onCore (image.callRoutine name)
      else (machine, some (.unresolvedSymbol name))

def execute (image : Image) (instruction : Instruction) (machine : Machine) :
    Machine × Option Fault :=
  match instruction.mnemonic, instruction.operands with
  | .call, [.label name] => machine.call image name
  | .call, [operand] => (machine, some (.callTarget operand))
  | .ret, _ => (machine.leave, none)
  | _, _ => machine.onCore (image.compute instruction)

def advance (machine : Machine) : Machine :=
  { machine with ip := machine.ip + 1, steps := machine.steps + 1 }

/-- Takes one instruction. A halted machine stays as it is, and one that stands outside its program
halts. -/
def step (image : Image) (machine : Machine) : Machine × Option RunError :=
  if machine.halted then (machine, none)
  else
    match image.fetch? machine.ip with
    | none => ({ machine with halted := true }, none)
    | some instruction =>
        if (image.stepLimit : Int) ≤ machine.steps then
          (machine, some ⟨none, .stepLimit image.stepLimit⟩)
        else
          match machine.advance.execute image instruction with
          | (after, none) => (after, none)
          | (after, some fault) => (after, some ⟨some instruction, fault⟩)

/-- Takes up to `count` steps and stops at the first failure. -/
def stepMany (image : Image) : Nat → Machine → Machine × Option RunError
  | 0, machine => (machine, none)
  | count + 1, machine =>
      match machine.step image with
      | (after, none) => stepMany image count after
      | failed => failed

@[simp] theorem steps_onCore (machine : Machine) (work : Core → Effect) :
    (machine.onCore work).1.steps = machine.steps := rfl

@[simp] theorem steps_enter (machine : Machine) (target : Nat) :
    (machine.enter target).steps = machine.steps := rfl

@[simp] theorem steps_leave (machine : Machine) : machine.leave.steps = machine.steps := by
  unfold leave
  split <;> rfl

@[simp] theorem steps_call (image : Image) (name : Bytes) (machine : Machine) :
    (machine.call image name).1.steps = machine.steps := by
  unfold call
  split
  · rfl
  · split <;> rfl

@[simp] theorem steps_execute (image : Image) (instruction : Instruction) (machine : Machine) :
    (machine.execute image instruction).1.steps = machine.steps := by
  unfold execute
  split <;> simp

/-- How many steps a machine can still take, one more if it has to halt. -/
def remaining (image : Image) (machine : Machine) : Nat :=
  if machine.halted then 0 else (image.stepLimit - machine.steps).toNat + 1

/-- A step of a running machine that does not fail uses up some of what remains. -/
theorem remaining_step_lt (image : Image) (machine : Machine)
    (running : machine.halted = false) (quiet : (machine.step image).2 = none) :
    (machine.step image).1.remaining image < machine.remaining image := by
  unfold step at quiet ⊢
  simp only [running, Bool.false_eq_true, if_false] at quiet ⊢
  cases fetched : image.fetch? machine.ip with
  | none => simp [remaining, running]
  | some instruction =>
      simp only [fetched] at quiet ⊢
      by_cases limited : (image.stepLimit : Int) ≤ machine.steps
      · simp [limited] at quiet
      · simp only [limited, if_false] at quiet ⊢
        have counted := steps_execute image instruction machine.advance
        split at quiet
        · rename_i after executed
          rw [executed] at counted
          simp only [advance] at counted
          simp only [remaining, running, Bool.false_eq_true, if_false]
          split <;> omega
        · simp at quiet

def run (image : Image) (machine : Machine) : Machine × Option RunError :=
  if running : machine.halted = false then
    match result : machine.step image with
    | (after, none) =>
        have : after.remaining image < machine.remaining image := by
          have smaller := remaining_step_lt image machine running (by rw [result])
          rwa [result] at smaller
        run image after
    | (after, some error) => (after, some error)
  else (machine, none)
termination_by machine.remaining image

/-- The result of a program, meaningful once it has halted. -/
def exitCode (machine : Machine) : Word := machine.registers.eax

/-- The words from the stack pointer up to where the stack starts. -/
def stack (image : Image) (machine : Machine) : List Word :=
  let top := machine.registers.esp.toNat
  (List.range ((image.stackTop - top) / 4)).map fun index =>
    machine.memory.load (BitVec.ofNat 32 (top + 4 * index))

def reservations (image : Image) (machine : Machine) : Table Bytes :=
  image.program.reservations.map fun item =>
    (item.label, machine.memory.slice ((image.symbols.find? item.label).getD 0).toNat item.size)

end Machine
end ExprCompiler
