import ExprCompiler.Text.Bytes

/-!
Paths as texts. A clean path has no empty and no `.` steps, and `..` steps only at the front of a
relative path.
-/

namespace ExprCompiler.Path

def slash : UInt8 := 0x2f

def isAbsolute (path : Bytes) : Bool := path.head? == some slash

def upward : Bytes := utf8 ".."

/-- Takes one more step; `steps` holds the steps so far, last first. -/
def step (rooted : Bool) (steps : List Bytes) (next : Bytes) : List Bytes :=
  if next = [] || next = utf8 "." then steps
  else if next = upward then
    match steps with
    | [] => if rooted then [] else [upward]
    | last :: before => if last = upward then upward :: last :: before else before
  else next :: steps

def steps (path : Bytes) : List Bytes :=
  ((Text.splitOn slash path).foldl (step (isAbsolute path)) []).reverse

def ofSteps (rooted : Bool) (steps : List Bytes) : Bytes :=
  if rooted then slash :: Text.join [slash] steps
  else if steps = [] then utf8 "."
  else Text.join [slash] steps

def clean (path : Bytes) : Bytes := ofSteps (isAbsolute path) (steps path)

def join (directory path : Bytes) : Bytes :=
  if directory = [] then if path = [] then [] else clean path
  else if path = [] then clean directory
  else clean (directory ++ slash :: path)

def absolute (workingDirectory path : Bytes) : Bytes :=
  if isAbsolute path then clean path else join workingDirectory path

def parent (path : Bytes) : Bytes :=
  clean ((path.reverse.dropWhile (· != slash)).reverse)

end ExprCompiler.Path
