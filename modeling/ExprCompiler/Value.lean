import ExprCompiler.Word
import ExprCompiler.Text.Quoted

/-!
Values of the source language: words, booleans, texts, and the absent value that a hand-made token
or binding may carry.
-/

namespace ExprCompiler

inductive Value where
  | int (word : Word)
  | bool (flag : Bool)
  | text (content : Bytes)
  | absent
  deriving DecidableEq, Repr

namespace Value

/-- The value as the language prints it: texts without quotes. -/
def plain : Value → Bytes
  | int word => word.text
  | bool true => utf8 "true"
  | bool false => utf8 "false"
  | text content => content
  | absent => utf8 "<nil>"

/-- The value as a literal of a tree is written: texts in quotes. -/
def literal : Value → Bytes
  | text content => Text.quote content
  | value => value.plain

end Value
end ExprCompiler
