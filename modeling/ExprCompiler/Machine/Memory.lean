import ExprCompiler.Word

/-!
Flat byte memory. Words are stored with their lowest byte first and need no alignment.
-/

namespace ExprCompiler

abbrev Memory := Array UInt8

namespace Memory

def zeros (size : Nat) : Memory := Array.replicate size 0

/-- The byte at an index, zero outside. -/
def byte (memory : Memory) (index : Nat) : UInt8 := memory.getD index 0

def holdsWord (memory : Memory) (address : Word) : Bool := address.toNat + 4 ≤ memory.size

/-- The word at an address; bytes outside count as zero. -/
def load (memory : Memory) (address : Word) : Word :=
  let index := address.toNat
  BitVec.ofNat 32 ((memory.byte index).toNat + 256 * (memory.byte (index + 1)).toNat +
    65536 * (memory.byte (index + 2)).toNat + 16777216 * (memory.byte (index + 3)).toNat)

/-- Stores a word at an address; bytes outside are dropped. -/
def store (memory : Memory) (address value : Word) : Memory :=
  let index := address.toNat
  let number := value.toNat
  (((memory.setIfInBounds index (UInt8.ofNat number)).setIfInBounds (index + 1)
    (UInt8.ofNat (number / 256))).setIfInBounds (index + 2)
    (UInt8.ofNat (number / 65536))).setIfInBounds (index + 3) (UInt8.ofNat (number / 16777216))

/-- Stores bytes from an index on; what reaches past the end is dropped. -/
def storeBytes (memory : Memory) (index : Nat) : Bytes → Memory
  | [] => memory
  | value :: rest => storeBytes (memory.setIfInBounds index value) (index + 1) rest

def slice (memory : Memory) (index count : Nat) : Bytes :=
  (memory.extract index (index + count)).toList

/-- The bytes from an index up to the next zero, put behind those already `found`, last first. -/
def textFrom (memory : Memory) (index : Nat) (found : Bytes) : Option Bytes :=
  if index < memory.size then
    if memory.byte index = 0 then some found.reverse
    else memory.textFrom (index + 1) (memory.byte index :: found)
  else none
termination_by memory.size - index

def text? (memory : Memory) (address : Word) : Option Bytes := memory.textFrom address.toNat []

end Memory
end ExprCompiler
