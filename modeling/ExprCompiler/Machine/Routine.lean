import ExprCompiler.Machine.State

/-!
The routines that every program can import: formatted output and formatted input. Arguments lie on
the stack, the first one on top, and the result comes to eax. The caller removes the arguments.
-/

namespace ExprCompiler

def isNumberLetter (byte : UInt8) : Bool := byte == 0x64 || byte == 0x69

/-- Fills in a format. `next` is the number of the argument for the next conversion; a percent sign
before any other letter stays as it is. -/
def formatWith (argument : Nat → Except Fault Word) (next : Nat) : Bytes → Except Fault Bytes
  | [] => .ok []
  | 0x25 :: letter :: rest =>
      if isNumberLetter letter then
        match argument next with
        | .error fault => .error fault
        | .ok value => (formatWith argument (next + 1) rest).map fun text => value.text ++ text
      else if letter = 0x25 then (formatWith argument next rest).map fun text => 0x25 :: text
      else (formatWith argument next rest).map fun text => 0x25 :: letter :: text
  | byte :: rest => (formatWith argument next rest).map fun text => byte :: text

/-- Writes a format with numbers filled in and returns how many bytes it wrote. -/
def printRoutine : Routine := fun core =>
  let text := do
    let address ← core.argument 0
    let format ← core.readText address
    formatWith core.argument 1 format
  match text with
  | .error fault => ⟨core, some fault⟩
  | .ok written =>
      let result := core.set .eax (BitVec.ofNat 32 written.length)
      ⟨{ result with written := written :: result.written }, none⟩

def scanArgument (core : Core) (number : Nat) : Effect :=
  match core.argument number with
  | .error fault => ⟨core, some fault⟩
  | .ok address =>
      match scanWord core.unread with
      | (.error problem, rest) => ⟨{ core with unread := rest }, some (.input problem)⟩
      | (.ok value, rest) => { core with unread := rest : Core }.write address value

/-- Reads a number for every conversion of a format and skips everything else in it. `stored`
counts the numbers read so far. -/
def scanWith (stored : Nat) (core : Core) : Bytes → Effect
  | 0x25 :: letter :: rest =>
      if isNumberLetter letter then
        match scanArgument core (stored + 1) with
        | ⟨after, none⟩ => scanWith (stored + 1) after rest
        | ⟨after, some fault⟩ => ⟨after, some fault⟩
      else scanWith stored core (letter :: rest)
  | _ :: rest => scanWith stored core rest
  | [] => ⟨core.set .eax (BitVec.ofNat 32 stored), none⟩

def scanRoutine : Routine := fun core =>
  let format := do
    let address ← core.argument 0
    core.readText address
  match format with
  | .error fault => ⟨core, some fault⟩
  | .ok text => scanWith 0 core text

def standardRoutines : Table Routine :=
  [(utf8 "printf", printRoutine), (utf8 "scanf", scanRoutine)]

end ExprCompiler
