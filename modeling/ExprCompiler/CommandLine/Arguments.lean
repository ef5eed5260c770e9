import ExprCompiler.Text.EditDistance
import ExprCompiler.Text.Integer
import ExprCompiler.Text.LowerCase
import ExprCompiler.Text.Quoted

/-!
Arguments of a command line: flags, which may have values, a command and what it is applied to.
Flags of the whole program may stand anywhere, those of a command only after it.
-/

namespace ExprCompiler

inductive FlagKind where
  /-- On when it is given, unless a value says otherwise. -/
  | switch
  | text
  | path
  | int
  deriving DecidableEq, Repr

structure Flag where
  name : String
  /-- A letter that stands for the name. -/
  short : Option UInt8 := none
  kind : FlagKind
  deriving DecidableEq, Repr

inductive FlagValue where
  | switch (on : Bool)
  | text (content : Bytes)
  | int (value : Int)
  deriving DecidableEq, Repr

structure CommandShape where
  name : String
  flags : List Flag
  /-- Whether the command is applied to a source. -/
  takesSource : Bool
  deriving DecidableEq, Repr

inductive ValueObstacle where
  | nothing
  | longFlag (argument : Bytes)
  | shortFlag (argument : Bytes)
  deriving DecidableEq, Repr

inductive UsageError where
  | unknownFlag (flag : Bytes) (candidates : List Bytes)
  | unexpectedArgument (argument : Bytes) (candidates : List Bytes)
  | valueExpected (flag : Flag) (obstacle : ValueObstacle)
  | notBool (flag : Flag) (value : Bytes)
  | notInt (flag : Flag) (value : Bytes)
  | commandExpected (names : List Bytes)
  | sourceExpected
  deriving DecidableEq, Repr

namespace Flag

def longText (flag : Flag) : Bytes := utf8 "--" ++ utf8 flag.name

def shortText? (flag : Flag) : Option Bytes := flag.short.map fun letter => [0x2d, letter]

def spellings (flag : Flag) : List Bytes := flag.longText :: flag.shortText?.toList

def valueName (flag : Flag) : Bytes :=
  match flag.kind with
  | .switch => utf8 "bool"
  | .text => utf8 "string"
  | .path => utf8 "file"
  | .int => utf8 "int"

end Flag

namespace UsageError

def similar (given : Bytes) (candidates : List Bytes) : List Bytes :=
  candidates.filter fun candidate =>
    (Text.afterWord? given candidate).isSome || Text.editDistance candidate given ≤ 2

def suggestion (given : Bytes) (candidates : List Bytes) : Bytes :=
  match similar given candidates with
  | [] => []
  | [name] => utf8 ", did you mean " ++ Text.quote name ++ utf8 "?"
  | names =>
      utf8 ", did you mean one of " ++ Text.join (utf8 ", ") (names.map Text.quote) ++ utf8 "?"

def valueMessage (flag : Flag) (got : Bytes) (kind : String) : Bytes :=
  flag.longText ++ utf8 ": expected " ++ flag.valueName ++ utf8 " value but got " ++
    Text.quote got ++ utf8 " (" ++ utf8 kind ++ utf8 ")"

def valueHint (flag : Flag) (got : Bytes) : Bytes :=
  utf8 "; perhaps try " ++ flag.longText ++ utf8 "=" ++ Text.quote got ++ utf8 "?"

def someOf (names : List Bytes) : Bytes :=
  Text.join (utf8 ", ")
    ((names.take 5).map Text.quote ++ if 5 < names.length then [utf8 "..."] else [])

def message : UsageError → Bytes
  | unknownFlag flag candidates =>
      utf8 "unknown flag " ++ flag ++ suggestion flag candidates
  | unexpectedArgument argument candidates =>
      utf8 "unexpected argument " ++ argument ++ suggestion argument candidates
  | valueExpected flag .nothing => valueMessage flag (utf8 "EOL") "<EOL>"
  | valueExpected flag (.longFlag argument) =>
      valueMessage flag argument "long flag" ++ valueHint flag argument
  | valueExpected flag (.shortFlag argument) =>
      valueMessage flag argument "short flag" ++ valueHint flag argument
  | notBool flag value =>
      flag.longText ++ utf8 ": bool value must be true, 1, yes, false, 0 or no but got " ++
        Text.quote value
  | notInt flag value =>
      flag.longText ++ utf8 ": expected a valid 64 bit int but got " ++ Text.quote value
  | commandExpected names => utf8 "expected one of " ++ someOf names
  | sourceExpected => utf8 "expected \"<source>\""

end UsageError

structure Invocation where
  command : Option CommandShape := none
  source : Option Bytes := none
  /-- Flags with their values, the last one first. -/
  values : List (String × FlagValue) := []
  deriving DecidableEq, Repr

namespace Invocation

def value? (invocation : Invocation) (name : String) : Option FlagValue :=
  invocation.values.lookup name

def text (invocation : Invocation) (name : String) (otherwise : Bytes) : Bytes :=
  match invocation.value? name with
  | some (.text content) => content
  | _ => otherwise

def switch (invocation : Invocation) (name : String) : Bool :=
  match invocation.value? name with
  | some (.switch on) => on
  | _ => false

def int (invocation : Invocation) (name : String) (otherwise : Int) : Int :=
  match invocation.value? name with
  | some (.int number) => number
  | _ => otherwise

def set (invocation : Invocation) (flag : Flag) (value : FlagValue) : Invocation :=
  { invocation with values := (flag.name, value) :: invocation.values }

end Invocation

namespace Arguments

structure Grammar where
  flags : List Flag
  commands : List CommandShape
  deriving DecidableEq, Repr

namespace Grammar

def flagsFor (grammar : Grammar) (invocation : Invocation) : List Flag :=
  grammar.flags ++ (invocation.command.map CommandShape.flags).getD []

def findFlag (grammar : Grammar) (invocation : Invocation) (spelling : Bytes) :
    Except UsageError Flag :=
  let flags := grammar.flagsFor invocation
  match flags.find? (·.spellings.contains spelling) with
  | some flag => .ok flag
  | none => .error (.unknownFlag spelling (flags.flatMap Flag.spellings))

end Grammar

def readSwitch (flag : Flag) (value : Bytes) : Except UsageError FlagValue :=
  let word := Text.lowerCase value
  if ["true", "1", "yes"].any (utf8 · == word) then .ok (.switch true)
  else if ["false", "0", "no"].any (utf8 · == word) then .ok (.switch false)
  else .error (.notBool flag word)

def readValue (flag : Flag) (value : Bytes) : Except UsageError FlagValue :=
  match flag.kind with
  | .switch => readSwitch flag value
  | .text | .path => .ok (.text value)
  | .int =>
      match Text.readInteger 64 value with
      | .ok number => .ok (.int number)
      | .error _ => .error (.notInt flag value)

/-- What keeps an argument from being a value; a lone hyphen is one. -/
def obstacle? : Bytes → Option ValueObstacle
  | [0x2d] => none
  | 0x2d :: 0x2d :: rest => some (.longFlag (0x2d :: 0x2d :: rest))
  | 0x2d :: rest => some (.shortFlag (0x2d :: rest))
  | _ => none

/-- A flag that takes its value from the next argument, if it needs one. -/
def takeValue (flag : Flag) (rest : List Bytes) : Except UsageError (FlagValue × List Bytes) :=
  if flag.kind = .switch then .ok (.switch true, rest)
  else
    match rest with
    | [] => .error (.valueExpected flag .nothing)
    | next :: later =>
        match obstacle? next with
        | some obstacle => .error (.valueExpected flag obstacle)
        | none => (readValue flag next).map fun value => (value, later)

/-- A flag with its full name; a value may follow an equals sign. -/
def longFlag (grammar : Grammar) (invocation : Invocation) (body : Bytes) (rest : List Bytes) :
    Except UsageError (Invocation × List Bytes) := do
  let flag ← grammar.findFlag invocation (utf8 "--" ++ body.takeWhile (· != 0x3d))
  match body.dropWhile (· != 0x3d) with
  | _ :: value => return (invocation.set flag (← readValue flag value), rest)
  | [] =>
      let (value, later) ← takeValue flag rest
      return (invocation.set flag value, later)

/-- Flags by their letters; letters after a flag that needs a value are its value. -/
def shortFlags (grammar : Grammar) (rest : List Bytes) :
    Invocation → Bytes → Except UsageError (Invocation × List Bytes)
  | invocation, [] => .ok (invocation, rest)
  | invocation, letter :: tail =>
      match grammar.findFlag invocation [0x2d, letter] with
      | .error error => .error error
      | .ok flag =>
          if flag.kind = .switch then
            shortFlags grammar rest (invocation.set flag (.switch true)) tail
          else if tail = [] then
            (takeValue flag rest).map fun (value, later) => (invocation.set flag value, later)
          else (readValue flag tail).map fun value => (invocation.set flag value, rest)

def place (grammar : Grammar) (invocation : Invocation) (argument : Bytes) :
    Except UsageError Invocation :=
  match invocation.command with
  | none =>
      match grammar.commands.find? fun shape => utf8 shape.name == argument with
      | some shape => .ok { invocation with command := some shape }
      | none =>
          .error (.unexpectedArgument argument (grammar.commands.map fun shape => utf8 shape.name))
  | some shape =>
      if shape.takesSource && invocation.source.isNone then
        .ok { invocation with source := some argument }
      else .error (.unexpectedArgument argument [])

/-- Reads arguments one by one. Every step takes at least one of them, so their number is fuel
enough. After a double hyphen no argument is a flag. -/
def readFrom (grammar : Grammar) : Nat → Invocation → List Bytes → Except UsageError Invocation
  | _, invocation, [] => .ok invocation
  | 0, invocation, _ => .ok invocation
  | fuel + 1, invocation, argument :: rest =>
      if argument = utf8 "--" then rest.foldlM (place grammar) invocation
      else
        match argument with
        | 0x2d :: 0x2d :: body =>
            match longFlag grammar invocation body rest with
            | .error error => .error error
            | .ok (next, later) => readFrom grammar fuel next later
        | 0x2d :: letter :: tail =>
            match shortFlags grammar rest invocation (letter :: tail) with
            | .error error => .error error
            | .ok (next, later) => readFrom grammar fuel next later
        | _ =>
            match place grammar invocation argument with
            | .error error => .error error
            | .ok next => readFrom grammar fuel next rest

def read (grammar : Grammar) (arguments : List Bytes) : Except UsageError Invocation :=
  readFrom grammar arguments.length {} arguments

def check (grammar : Grammar) (invocation : Invocation) :
    Except UsageError (CommandShape × Bytes) :=
  match invocation.command with
  | none => .error (.commandExpected (grammar.commands.map fun shape => utf8 shape.name))
  | some shape =>
      match invocation.source with
      | some source => .ok (shape, source)
      | none => if shape.takesSource then .error .sourceExpected else .ok (shape, [])

end Arguments
end ExprCompiler
