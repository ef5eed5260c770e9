import ExprCompiler.Text.Blank
import ExprCompiler.Text.LowerCase
import ExprCompiler.Text.Quoted

/-!
Log records: a level, a message and named attributes in the order they were given. How a record is
written is decided elsewhere.
-/

namespace ExprCompiler

inductive LogLevel where
  | debug | info | warn | error
  deriving DecidableEq, Repr

namespace LogLevel

def rank : LogLevel → Int
  | debug => -4
  | info => 0
  | warn => 4
  | error => 8

def name : LogLevel → Bytes
  | debug => utf8 "DEBUG"
  | info => utf8 "INFO"
  | warn => utf8 "WARN"
  | error => utf8 "ERROR"

/-- Reads a level without regard to case and surrounding blanks; the empty text means `info`. -/
def ofText? (text : Bytes) : Option LogLevel :=
  let word := Text.lowerCase (Text.trim text)
  if word = utf8 "debug" then some debug
  else if word = [] || word = utf8 "info" then some info
  else if word = utf8 "warn" || word = utf8 "warning" then some warn
  else if word = utf8 "error" then some error
  else none

def unknownMessage (text : Bytes) : Bytes := utf8 "unknown log level " ++ Text.quote text

end LogLevel

inductive LogValue where
  | text (content : Bytes)
  | int (value : Int)
  | bool (flag : Bool)
  /-- The time that some work took, which only a clock can tell. -/
  | elapsed
  deriving DecidableEq, Repr

structure LogRecord where
  level : LogLevel
  message : Bytes
  attributes : List (Bytes × LogValue)
  deriving DecidableEq, Repr

end ExprCompiler
