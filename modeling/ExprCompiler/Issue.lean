import ExprCompiler.Position

/-!
Issues: what a person is told about a source, at a place of the source if there is one.
-/

namespace ExprCompiler

structure Issue where
  position : Option Position
  /-- The message without its place. -/
  text : Bytes
  deriving DecidableEq, Repr

namespace Issue

def plain (text : Bytes) : Issue := ⟨none, text⟩

def located (position : Position) (text : Bytes) : Issue := ⟨some position, text⟩

def message (issue : Issue) : Bytes :=
  match issue.position with
  | some position => position.text ++ utf8 ": " ++ issue.text
  | none => issue.text

end Issue
end ExprCompiler
