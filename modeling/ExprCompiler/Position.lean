import ExprCompiler.Text.Bytes

/-!
Places in a source text: inclusive spans of columns or offsets, and positions made of a line and a
span of columns. Lines, columns and offsets count from zero, in bytes.
-/

namespace ExprCompiler

/-- An inclusive span of integers, empty when `last` is below `first`. -/
structure Span where
  first : Int
  last : Int
  deriving DecidableEq, Repr

namespace Span

/-- The span of things that take no room in the source, such as its end. -/
def empty : Span := ⟨0, -1⟩

def isEmpty (span : Span) : Bool := span.last < span.first

def size (span : Span) : Nat := (span.last - span.first + 1).toNat

def text (span : Span) : Bytes :=
  if span.isEmpty then utf8 "empty"
  else Text.decimal span.first ++ utf8 ".." ++ Text.decimal span.last

end Span

structure Position where
  line : Int
  columns : Span
  deriving DecidableEq, Repr

def Position.text (position : Position) : Bytes :=
  Text.decimal position.line ++ utf8 ":" ++ position.columns.text

end ExprCompiler
