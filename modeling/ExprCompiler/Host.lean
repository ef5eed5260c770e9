import ExprCompiler.Charset.Common
import ExprCompiler.Config.Basic
import ExprCompiler.Files.Tree
import ExprCompiler.Log.Write
import ExprCompiler.Service.Http

/-!
What the program needs from outside: files, character sets, variables, a console, a clock and a
network. The desk is a host kept in memory, on which a run is a plain function.
-/

namespace ExprCompiler

structure Host (m : Type → Type) extends FileSystem m where
  charsets : CharsetRegistry
  environment : m (Table Bytes)
  setEnvironment : Table Bytes → m Unit
  /-- All input that is left. -/
  readInput : m Bytes
  /-- Hands the lines of the input, each with its newline, to a step one after the other, until the
  step says that it has enough or the input ends. -/
  eachLine : {State : Type} → State → (State → Bytes → m (State × Bool)) → m State
  print : Bytes → m Unit
  printError : Bytes → m Unit
  /-- Whether output goes to a terminal that shows colours. -/
  isTerminal : m Bool
  time : m LogTime
  /-- Serves on the address of the settings until it is stopped. -/
  serve : LogSettings → Config → m (Except Address.ListenError Unit)

structure Desk where
  tree : FileTree
  environment : Table Bytes := []
  input : Bytes := []
  /-- Texts that were printed, the last one first. -/
  printed : List Bytes := []
  printedErrors : List Bytes := []
  terminal : Bool := false
  time : LogTime
  deriving DecidableEq, Repr

namespace Desk

def output (desk : Desk) : Bytes := desk.printed.reverse.flatten

def errors (desk : Desk) : Bytes := desk.printedErrors.reverse.flatten

def linesOf (text : Bytes) : List Bytes :=
  let lines := Text.lines text
  lines.dropLast.map (· ++ [10]) ++ lines.getLast?.toList.filter (· != [])

def feed {State : Type} (step : State → Bytes → StateM Desk (State × Bool)) :
    State → List Bytes → StateM Desk State
  | state, [] => return state
  | state, line :: rest => do
      let (next, enough) ← step state line
      if enough then return next else feed step next rest

def writeFile (path contents : Bytes) : StateM Desk (Except FileError Unit) := do
  match (← get).tree.write path contents with
  | .ok tree =>
      modify fun desk => { desk with tree := tree }
      return .ok ()
  | .error error => return .error error

def takeInput : StateM Desk Bytes := do
  let input := (← get).input
  modify fun desk => { desk with input := [] }
  return input

/-- A host on a desk. Nobody can reach it from outside, so what it serves ends at once. -/
def host : Host (StateM Desk) where
  workingDirectory := return (← get).tree.workingDirectory
  stat path := return (← get).tree.stat path
  read path := return (← get).tree.read path
  write := writeFile
  charsets := .common
  environment := return (← get).environment
  setEnvironment environment := modify fun desk => { desk with environment := environment }
  readInput := takeInput
  eachLine start step := do feed step start (linesOf (← takeInput))
  print text := modify fun desk => { desk with printed := text :: desk.printed }
  printError text := modify fun desk => { desk with printedErrors := text :: desk.printedErrors }
  isTerminal := return (← get).terminal
  time := return (← get).time
  serve _ config := return match Address.listenError? config.address with
    | some error => .error error
    | none => .ok ()

end Desk
end ExprCompiler
