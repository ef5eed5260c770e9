import ExprCompiler.Assembly.Listing
import ExprCompiler.Machine.Routine

/-!
Loading a program. Constants are placed from a fixed address upwards and reservations after them,
every item at a multiple of four. Data may take the lower half of memory only; the stack grows down
from its end.
-/

namespace ExprCompiler

def dataStart : Nat := 0x1000

def defaultMemorySize : Nat := 65536

def defaultStepLimit : Nat := 1000000

structure MachineOptions where
  /-- Size of memory; a size below one stands for the default. -/
  memorySize : Int := 0
  /-- How many instructions may run; a limit below one stands for the default. -/
  stepLimit : Int := 0
  input : Bytes := []
  routines : Table Routine := standardRoutines

namespace MachineOptions

def size (options : MachineOptions) : Nat :=
  if options.memorySize ≤ 0 then defaultMemorySize else options.memorySize.toNat

/-- Address that the empty stack points at: the end of memory, cut to the width of an address. -/
def stackTop (options : MachineOptions) : Nat := options.size % 0x100000000

def limit (options : MachineOptions) : Nat :=
  if options.stepLimit ≤ 0 then defaultStepLimit else options.stepLimit.toNat

end MachineOptions

inductive LoadError where
  | listing (problem : ListingError)
  /-- The first item that reaches past the room for data. -/
  | tooLarge (item : DataItem)
  deriving DecidableEq, Repr

def LoadError.message : LoadError → Bytes
  | .listing problem => problem.message
  | .tooLarge item =>
      utf8 "program does not fit in memory: " ++ item.label ++ utf8 " at line " ++
        Text.decimal item.line

def alignUp (unit address : Nat) : Nat := (address + unit - 1) / unit * unit

structure Placed where
  item : DataItem
  address : Nat
  deriving DecidableEq, Repr

def Placed.finish (placed : Placed) : Nat := placed.address + placed.item.size

/-- Places items one after the other, none of them ending past `limit`; gives the address after
the last one too. -/
def placeItems (limit address : Nat) : List DataItem → Except LoadError (List Placed × Nat)
  | [] => .ok ([], address)
  | item :: rest =>
      let placed : Placed := ⟨item, alignUp 4 address⟩
      if limit < placed.finish then .error (.tooLarge item)
      else
        match placeItems limit placed.finish rest with
        | .error problem => .error problem
        | .ok (later, finish) => .ok (placed :: later, finish)

def layout (limit : Nat) (program : Program) : Except LoadError (List Placed) :=
  match placeItems limit dataStart program.constants with
  | .error problem => .error problem
  | .ok (constants, finish) =>
      match placeItems limit (alignUp 16 finish) program.reservations with
      | .error problem => .error problem
      | .ok (reservations, _) => .ok (constants ++ reservations)

def Placed.storeIn (memory : Memory) (placed : Placed) : Memory :=
  match placed.item.contents with
  | .bytes content => memory.storeBytes placed.address content
  | .zeros _ => memory

structure Loaded where
  image : Image
  machine : Machine

def Program.load (program : Program) (options : MachineOptions) : Except LoadError Loaded :=
  match layout (options.stackTop / 2) program with
  | .error problem => .error problem
  | .ok placed =>
      .ok
        { image :=
            { program := program
              symbols := placed.map fun item => (item.item.label, BitVec.ofNat 32 item.address)
              stackTop := options.stackTop
              stepLimit := options.limit
              routines := options.routines }
          machine :=
            { registers := { esp := BitVec.ofNat 32 options.stackTop }
              memory := placed.foldl Placed.storeIn (Memory.zeros options.size)
              unread := options.input
              ip := program.entry } }

def loadListing (text : Bytes) (options : MachineOptions) : Except LoadError Loaded :=
  match readListing text with
  | .error problem => .error (.listing problem)
  | .ok program => program.load options

end ExprCompiler
