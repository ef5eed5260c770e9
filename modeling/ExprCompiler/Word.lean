import ExprCompiler.Text.Bytes

/-!
Machine words. One 32-bit type serves the source language, where words are signed numbers, and the
machine, where they are also addresses. Arithmetic wraps and division goes toward zero.
-/

namespace ExprCompiler

/-- The lowest `count` bytes of a number, the lowest first. -/
def littleEndian : Nat → Nat → Bytes
  | 0, _ => []
  | count + 1, value => UInt8.ofNat value :: littleEndian count (value / 256)

def ofLittleEndian : Bytes → Nat
  | [] => 0
  | byte :: rest => byte.toNat + 256 * ofLittleEndian rest

abbrev Word := BitVec 32

namespace Word

def text (word : Word) : Bytes := Text.decimal word.toInt

def least : Word := BitVec.intMin 32

/-- Whether a hardware division faults: the divisor is zero, or the quotient is one more than the
largest signed word. -/
def divisionFaults (dividend divisor : Word) : Bool :=
  divisor == 0 || (dividend == least && divisor == -1)

end Word
end ExprCompiler
