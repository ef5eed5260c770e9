import ExprCompiler.Assembly.Program
import ExprCompiler.Machine.Memory
import ExprCompiler.Machine.Registers
import ExprCompiler.Machine.Scan

/-!
Machine states and faults. The part of a state that instructions and routines compute with is kept
apart from the control part, which only calls, returns and the machine itself change.
-/

namespace ExprCompiler

inductive Fault where
  | divisionByZero
  | quotientOverflow
  | stepLimit (limit : Nat)
  | badRead (address : Word)
  | badWrite (address : Word)
  | unterminatedText (address : Word)
  | unknownInstruction (mnemonic : Bytes)
  | operandCount (mnemonic : Bytes) (count line : Nat)
  | notWritable (operand : Operand)
  | callTarget (operand : Operand)
  | unresolvedSymbol (name : Bytes)
  | input (problem : ScanError)
  | unsupportedRoutine (name : Bytes)
  deriving DecidableEq, Repr

namespace Fault

def outside (access : String) (address : Word) : Bytes :=
  utf8 "memory access out of bounds: " ++ utf8 access ++ utf8 " at 0x" ++
    Text.hexNat address.toNat

def message : Fault → Bytes
  | divisionByZero => utf8 "divide error: division by zero"
  | quotientOverflow => utf8 "divide error: quotient overflow"
  | stepLimit limit => utf8 "step limit exceeded: " ++ Text.decimal limit
  | badRead address => outside "read" address
  | badWrite address => outside "write" address
  | unterminatedText address => outside "unterminated string" address
  | unknownInstruction mnemonic => utf8 "unknown instruction: " ++ mnemonic
  | operandCount mnemonic count line =>
      utf8 "bad operand: " ++ mnemonic ++ utf8 " expects " ++ Text.decimal count ++
        utf8 " operand(s) on line " ++ Text.decimal line
  | notWritable operand => utf8 "bad operand: cannot write to " ++ operand.text
  | callTarget operand => utf8 "bad operand: call target " ++ operand.text
  | unresolvedSymbol name => utf8 "unresolved symbol: " ++ name
  | input problem => utf8 "input error: scanf: " ++ problem.message
  | unsupportedRoutine name => utf8 "unsupported extern: " ++ name

end Fault

structure Core where
  registers : Registers := {}
  memory : Memory
  /-- Input that no routine has taken yet. -/
  unread : Bytes := []
  /-- Texts that were written, the last one first. -/
  written : List Bytes := []
  deriving DecidableEq, Repr

namespace Core

def output (core : Core) : Bytes := core.written.reverse.flatten

def get (core : Core) (register : Register) : Word := core.registers.get register

def set (core : Core) (register : Register) (value : Word) : Core :=
  { core with registers := core.registers.set register value }

def read (core : Core) (address : Word) : Except Fault Word :=
  if core.memory.holdsWord address then .ok (core.memory.load address)
  else .error (.badRead address)

def readText (core : Core) (address : Word) : Except Fault Bytes :=
  match core.memory.text? address with
  | some text => .ok text
  | none => .error (.unterminatedText address)

/-- An argument of a routine, counting from the top of the stack. -/
def argument (core : Core) (number : Nat) : Except Fault Word :=
  core.read (core.get .esp + BitVec.ofNat 32 (4 * number))

end Core

/-- What became of a core: the core afterwards, and the fault that ended the work early. -/
structure Effect where
  core : Core
  fault : Option Fault := none
  deriving DecidableEq, Repr

def Core.write (core : Core) (address value : Word) : Effect :=
  if core.memory.holdsWord address then
    ⟨{ core with memory := core.memory.store address value }, none⟩
  else ⟨core, some (.badWrite address)⟩

abbrev Routine := Core → Effect

/-- A loaded program: everything that stays the same while it runs. -/
structure Image where
  program : Program
  /-- Addresses of the data labels. -/
  symbols : Table Word
  /-- Address that the empty stack points at. -/
  stackTop : Nat
  /-- How many instructions may run. -/
  stepLimit : Nat
  routines : Table Routine

structure Machine extends Core where
  /-- Index of the next instruction. -/
  ip : Int
  halted : Bool := false
  /-- How many instructions have run. -/
  steps : Int := 0
  /-- Indices to return to, the innermost first; `none` until the first call. -/
  frames : Option (List Int) := none
  deriving DecidableEq, Repr

end ExprCompiler
