import ExprCompiler.CommandLine.Arguments
import ExprCompiler.Config.Basic
import ExprCompiler.Files.Path

/-!
The commands of the program and their flags.
-/

namespace ExprCompiler

structure CompileFlags where
  noFold : Bool := false
  noPeephole : Bool := false
  /-- Empty if the settings decide. -/
  division : Bytes := []
  /-- Empty if the settings decide. -/
  encoding : Bytes := []
  inputEncoding : Bytes := utf8 "UTF-8"
  deriving DecidableEq, Repr

structure RunFlags where
  maxSteps : Int := 1000000
  showState : Bool := false
  /-- Where the machine is saved at the end; empty for nowhere. -/
  snapshot : Bytes := []
  /-- Where the machine is restored from at the start; empty for nowhere. -/
  restore : Bytes := []
  deriving DecidableEq, Repr

structure TreeFlags where
  fold : Bool := false
  oneLine : Bool := false
  variableNames : Bool := false
  deriving DecidableEq, Repr

inductive Command where
  | build (source output : Bytes) (compiling : CompileFlags)
  | run (source : Bytes) (running : RunFlags) (compiling : CompileFlags)
  | tokens (source inputEncoding : Bytes)
  | tree (source inputEncoding : Bytes) (showing : TreeFlags)
  | session (history : Bytes) (compiling : CompileFlags)
  | serve (address : Bytes)
  deriving DecidableEq, Repr

structure GlobalFlags where
  config : Bytes := utf8 "exprc.yaml"
  logLevel : Bytes := []
  logFormat : Bytes := []
  noColor : Bool := false
  deriving DecidableEq, Repr

namespace CompileFlags

/-- The options of the settings with what the flags change; fails with the name of an unknown
division mode. -/
def options (flags : CompileFlags) (charsets : CharsetRegistry) (config : Config) :
    Except Bytes CompileOptions :=
  let name := if flags.division = [] then config.division else flags.division
  match DivisionMode.ofText? name with
  | none => .error name
  | some division =>
      .ok { peephole := config.peephole && !flags.noPeephole, division := division,
            encoding := if flags.encoding = [] then config.encoding else flags.encoding,
            charsets := charsets, fold := config.fold && !flags.noFold }

end CompileFlags

namespace GlobalFlags

def apply (flags : GlobalFlags) (config : Config) : Config :=
  { config with
    logLevel := if flags.logLevel = [] then config.logLevel else flags.logLevel
    logFormat := if flags.logFormat = [] then config.logFormat else flags.logFormat
    color := config.color && !flags.noColor }

end GlobalFlags

namespace Command

def switchFlag (name : String) : Flag := { name := name, kind := .switch }

def textFlag (name : String) : Flag := { name := name, kind := .text }

def pathFlag (name : String) : Flag := { name := name, kind := .path }

def letter (code : UInt8) (flag : Flag) : Flag := { flag with short := some code }

def globalFlags : List Flag :=
  [letter 0x68 (switchFlag "help"), letter 0x63 (textFlag "config"), textFlag "log-level",
    textFlag "log-format", switchFlag "no-color"]

def compileFlags : List Flag :=
  [switchFlag "no-fold", switchFlag "no-peephole", textFlag "division", textFlag "encoding",
    textFlag "input-encoding"]

def runFlags : List Flag :=
  [{ name := "max-steps", kind := .int }, switchFlag "show-state", pathFlag "snapshot",
    pathFlag "restore"]

def treeFlags : List Flag :=
  [switchFlag "fold", switchFlag "sexp", switchFlag "vars", textFlag "input-encoding"]

def grammar : Arguments.Grammar where
  flags := globalFlags
  commands :=
    [{ name := "build", flags := letter 0x6f (textFlag "output") :: compileFlags,
       takesSource := true },
      { name := "run", flags := runFlags ++ compileFlags, takesSource := true },
      { name := "tokens", flags := [textFlag "input-encoding"], takesSource := true },
      { name := "ast", flags := treeFlags, takesSource := true },
      { name := "repl", flags := textFlag "history" :: compileFlags, takesSource := false },
      { name := "serve", flags := [textFlag "addr"], takesSource := false }]

structure Places where
  workingDirectory : Bytes
  home : Bytes
  deriving DecidableEq, Repr

/-- Makes a path absolute; a tilde stands for the home directory, and a hyphen is no path. -/
def expandPath (places : Places) (path : Bytes) : Bytes :=
  if path = utf8 "-" || Path.isAbsolute path then path
  else
    match path with
    | 0x7e :: 0x2f :: rest => Path.join places.home rest
    | _ => Path.absolute places.workingDirectory path

def pathOf (places : Places) (invocation : Invocation) (name : String) : Bytes :=
  match invocation.value? name with
  | some (.text path) => expandPath places path
  | _ => []

def compileFlagsOf (invocation : Invocation) : CompileFlags where
  noFold := invocation.switch "no-fold"
  noPeephole := invocation.switch "no-peephole"
  division := invocation.text "division" []
  encoding := invocation.text "encoding" []
  inputEncoding := invocation.text "input-encoding" (utf8 "UTF-8")

def runFlagsOf (places : Places) (invocation : Invocation) : RunFlags where
  maxSteps := invocation.int "max-steps" 1000000
  showState := invocation.switch "show-state"
  snapshot := pathOf places invocation "snapshot"
  restore := pathOf places invocation "restore"

def treeFlagsOf (invocation : Invocation) : TreeFlags where
  fold := invocation.switch "fold"
  oneLine := invocation.switch "sexp"
  variableNames := invocation.switch "vars"

def globalFlagsOf (invocation : Invocation) : GlobalFlags where
  config := invocation.text "config" (utf8 "exprc.yaml")
  logLevel := invocation.text "log-level" []
  logFormat := invocation.text "log-format" []
  noColor := invocation.switch "no-color"

def ofInvocation (places : Places) (invocation : Invocation) (name : String) (source : Bytes) :
    Command :=
  let inputEncoding := invocation.text "input-encoding" (utf8 "UTF-8")
  let compiling := compileFlagsOf invocation
  if name = "build" then .build source (invocation.text "output" []) compiling
  else if name = "run" then .run source (runFlagsOf places invocation) compiling
  else if name = "tokens" then .tokens source inputEncoding
  else if name = "ast" then .tree source inputEncoding (treeFlagsOf invocation)
  else if name = "repl" then .session (invocation.text "history" []) compiling
  else .serve (invocation.text "addr" [])

inductive Request where
  | help
  | perform (flags : GlobalFlags) (command : Command)
  deriving DecidableEq, Repr

/-- Reads a command line. Help is given whenever it is asked for, even if something is missing. -/
def read (places : Places) (arguments : List Bytes) : Except UsageError Request :=
  match Arguments.read grammar arguments with
  | .error error => .error error
  | .ok invocation =>
      if (invocation.value? "help").isSome then .ok .help
      else
        match Arguments.check grammar invocation with
        | .error error => .error error
        | .ok (shape, source) =>
            .ok (.perform (globalFlagsOf invocation)
              (ofInvocation places invocation shape.name source))

def helpLines : List String :=
  ["Usage: exprc <command> [flags]", "",
    "Compile arithmetic expressions to x86 assembly.", "",
    "Flags:",
    "  -h, --help                   Show context-sensitive help.",
    "  -c, --config=\"exprc.yaml\"    Configuration file path",
    "      --log-level=STRING       Log level: debug, info, warn or error",
    "      --log-format=STRING      Log format: text or json",
    "      --no-color               Disable coloured diagnostics", "",
    "Commands:",
    "  build <source> [flags]    Compile an expression to assembly",
    "  run <source> [flags]      Compile an expression and run it on the simulator",
    "  tokens <source> [flags]   Print the tokens of a source file",
    "  ast <source> [flags]      Print the syntax tree of a source file",
    "  repl [flags]              Start an interactive session",
    "  serve [flags]             Serve the compiler over HTTP"]

def helpText : Bytes := helpLines.flatMap fun line => utf8 line ++ [10]

end Command
end ExprCompiler
