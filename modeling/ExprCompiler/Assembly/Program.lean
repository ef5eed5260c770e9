import ExprCompiler.Assembly.Operand
import ExprCompiler.Table

/-!
Assembled programs: instructions with their code labels, and the named data that is placed in
memory before the first instruction runs.
-/

namespace ExprCompiler

inductive Section where
  /-- Before the first section header. -/
  | outside
  | code
  /-- Constants. -/
  | constants
  /-- Room that is reserved and starts out as zero. -/
  | reserved
  deriving DecidableEq, Repr

namespace Section

def name : Section → Bytes
  | outside => utf8 "none"
  | code => utf8 ".text"
  | constants => utf8 ".rdata"
  | reserved => utf8 ".bss"

def ofCode (number : Int) : Section :=
  if number = 1 then code
  else if number = 2 then constants
  else if number = 3 then reserved
  else outside

def ofHeader? (header : Bytes) : Option Section :=
  if header = utf8 ".text" then some code
  else if header = utf8 ".rdata" || header = utf8 ".data" then some constants
  else if header = utf8 ".bss" then some reserved
  else none

end Section

structure Instruction where
  /-- Number of its line in the listing, counting from one. -/
  line : Nat
  mnemonic : Mnemonic
  operands : List Operand
  deriving DecidableEq, Repr

def Instruction.text (instruction : Instruction) : Bytes :=
  instructionText instruction.mnemonic instruction.operands

inductive Contents where
  | bytes (content : Bytes)
  | zeros (count : Nat)
  deriving DecidableEq, Repr

namespace Contents

def size : Contents → Nat
  | bytes content => content.length
  | zeros count => count

def toBytes : Contents → Bytes
  | bytes content => content
  | zeros count => List.replicate count 0

end Contents

structure DataItem where
  line : Nat
  label : Bytes
  contents : Contents
  deriving DecidableEq, Repr

def DataItem.size (item : DataItem) : Nat := item.contents.size

structure Program where
  globals : List Bytes := []
  /-- Names of routines that are defined elsewhere. -/
  imports : List Bytes := []
  instructions : Array Instruction := #[]
  /-- Code labels with the index of the instruction after them. -/
  labels : Table Nat := []
  constants : List DataItem := []
  reservations : List DataItem := []
  deriving DecidableEq, Repr

namespace Program

def isImported (program : Program) (name : Bytes) : Bool := program.imports.contains name

/-- Index of the first instruction to run: that of the first global code label, else that of
`main`, else zero. -/
def entry (program : Program) : Nat :=
  ((program.globals ++ [utf8 "main"]).findSome? fun name => program.labels.find? name).getD 0

end Program
end ExprCompiler
