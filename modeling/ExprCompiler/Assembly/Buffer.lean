import ExprCompiler.Assembly.Operand

/-!
Lines of a listing under construction. With the peephole pass on, a `pop` emitted right after a
`push` takes the place of both: the pair becomes one `mov`.
-/

namespace ExprCompiler

inductive Line where
  | instruction (mnemonic : Mnemonic) (operands : List Operand)
  | sectionHeader (name : Bytes)
  /-- A declaration such as `global` or `extern`. -/
  | directive (word : Bytes) (name : Bytes)
  | label (name : Bytes)
  | data (label : Bytes) (directive : Bytes) (values : List Bytes)
  | comment (content : Bytes)
  deriving DecidableEq, Repr

namespace Line

def text : Line → Bytes
  | instruction mnemonic operands => instructionText mnemonic operands
  | sectionHeader name => utf8 "section " ++ name
  | directive word name => word ++ utf8 " " ++ name
  | label name => name ++ utf8 ":"
  | data name word values =>
      name ++ utf8 ": " ++ word ++ utf8 " " ++ Text.join (utf8 ", ") values
  | comment content => utf8 "; " ++ content

def kindCode : Line → Nat
  | instruction _ _ => 0
  | sectionHeader _ => 1
  | directive _ _ => 2
  | label _ => 3
  | data _ _ _ => 4
  | comment _ => 5

/-- The line in a listing: everything but a section header is indented. -/
def row : Line → Bytes
  | sectionHeader name => (sectionHeader name).text ++ [10]
  | line => utf8 "  " ++ line.text ++ [10]

/-- The line that replaces two neighbours, if they are a `push` and a `pop`. -/
def merge? : Line → Line → Option Line
  | instruction .push [source], instruction .pop [target] =>
      some (instruction .mov [target, source])
  | _, _ => none

end Line

structure Buffer where
  peephole : Bool
  /-- The lines emitted so far, the last one first. -/
  reversed : List Line := []
  deriving DecidableEq, Repr

namespace Buffer

def lines (buffer : Buffer) : List Line := buffer.reversed.reverse

def size (buffer : Buffer) : Nat := buffer.reversed.length

def emit (buffer : Buffer) (line : Line) : Buffer :=
  match buffer.peephole, buffer.reversed with
  | true, last :: earlier =>
      match last.merge? line with
      | some merged => { buffer with reversed := merged :: earlier }
      | none => { buffer with reversed := line :: last :: earlier }
  | _, reversed => { buffer with reversed := line :: reversed }

def emitAll (buffer : Buffer) (lines : List Line) : Buffer := lines.foldl emit buffer

def text (buffer : Buffer) : Bytes := buffer.lines.flatMap Line.row

end Buffer
end ExprCompiler
