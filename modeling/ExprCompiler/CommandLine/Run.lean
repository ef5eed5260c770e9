import ExprCompiler.CommandLine.Command
import ExprCompiler.Config.Load
import ExprCompiler.Host
import ExprCompiler.Machine.Snapshot
import ExprCompiler.Session

/-!
Running a command line. Results go to the output, everything else to the error output; the exit
code tells a wrong command line from a missing input, a faulty source and a failing program.
-/

namespace ExprCompiler

/-- An early end. Without a message everything has been said already. -/
structure Exit where
  code : Nat
  message : Option Bytes
  deriving DecidableEq, Repr

namespace Exit

def failure (message : Bytes) : Exit := ⟨1, some message⟩

def usage (message : Bytes) : Exit := ⟨64, some message⟩

def reported : Exit := ⟨65, none⟩

def badData (message : Bytes) : Exit := ⟨65, some message⟩

def noInput (message : Bytes) : Exit := ⟨66, some message⟩

def faulted (message : Bytes) : Exit := ⟨70, some message⟩

end Exit

namespace CommandLine

variable {m : Type → Type} [Monad m]

structure Context (m : Type → Type) where
  host : Host m
  config : Config
  log : LogSettings
  terminal : Bool

abbrev Task (m : Type → Type) := ExceptT Exit m

namespace Context

def print (context : Context m) (text : Bytes) : m Unit := context.host.print text

def printError (context : Context m) (text : Bytes) : m Unit := context.host.printError text

def writeLog (context : Context m) (records : List LogRecord) : m Unit := do
  context.printError (context.log.lines (← context.host.time) records)

def reportOptions (context : Context m) : ReportOptions :=
  context.config.reportOptions context.terminal

def reject {Result : Type} (context : Context m) (source : Bytes) (issues : List Issue) :
    Task m Result := do
  context.printError (report context.reportOptions source issues)
  throw Exit.reported

def compileOptions (context : Context m) (flags : CompileFlags) : Task m CompileOptions :=
  match flags.options context.host.charsets context.config with
  | .ok options => return options
  | .error name => throw (Exit.usage (DivisionMode.unknownMessage name))

/-- Reads a source from a file, or from the input if the path is a hyphen. -/
def readSource (context : Context m) (path charset : Bytes) : Task m Bytes := do
  if path = utf8 "-" then
    match decodeSource context.host.charsets charset (← context.host.readInput) with
    | .ok source => return source
    | .error error => throw (Exit.usage error.message)
  else
    match ← context.host.toFileSystem.readSource context.host.charsets path charset with
    | .ok source => return source
    | .error error => throw (Exit.noInput (utf8 "cannot open input: " ++ error.message))

def compileSource (context : Context m) (path : Bytes) (flags : CompileFlags) :
    Task m Output := do
  let options ← context.compileOptions flags
  let source ← context.readSource path flags.inputEncoding
  let (result, log) := compileLogged options source
  context.writeLog log
  match result with
  | .ok output => return output
  | .error error => context.reject source error.issues

def listingOf (context : Context m) (compiled : Output) : Task m Bytes :=
  match compiled.assembly.text context.host.charsets with
  | .ok listing => return listing
  | .error problem => throw (Exit.failure problem)

end Context

def build (context : Context m) (source output : Bytes) (flags : CompileFlags) :
    Task m Unit := do
  let compiled ← context.compileSource source flags
  let bytes := compiled.assembly.bytes
  match ← context.host.toFileSystem.writeOutput output bytes with
  | .error error => throw (Exit.failure (utf8 "failed to write output: " ++ error.message))
  | .ok shown =>
      context.print shown
      context.writeLog
        [⟨.info, utf8 "compiled",
          [(utf8 "source", .text source), (utf8 "output", .text output),
            (utf8 "bytes", .int bytes.length)]⟩]

def stateLine (machine : Machine) : Bytes :=
  (Register.all.flatMap fun register =>
    register.text ++ utf8 "=" ++ (machine.registers.get register).text ++ utf8 " ") ++
    utf8 "steps=" ++ Text.decimal machine.steps ++ [10]

def restore (context : Context m) (path : Bytes) (loaded : Loaded) : Task m Machine := do
  match ← context.host.read path with
  | .error error =>
      let message := utf8 "restore: " ++ error.message
      throw (if error.fault = .notFound then Exit.noInput message else Exit.badData message)
  | .ok file =>
      match loaded.machine.restoreFile .json loaded.image file with
      | .ok machine => return machine
      | .error error => throw (Exit.badData (utf8 "restore: " ++ error.message))

def save (context : Context m) (path : Bytes) (image : Image) (machine : Machine) :
    Task m Unit := do
  let file := ((machine.snapshot image).toArchive .json).toFile
  match ← context.host.write path file with
  | .ok _ => return
  | .error error => throw (Exit.failure (utf8 "snapshot: " ++ error.message))

def run (context : Context m) (source : Bytes) (running : RunFlags) (flags : CompileFlags) :
    Task m Unit := do
  if source = utf8 "-" then
    throw (Exit.usage (utf8 "run reads variables from stdin; the source must be a file"))
  let compiled ← context.compileSource source flags
  let listing ← context.listingOf compiled
  let input ← context.host.readInput
  match loadListing listing { stepLimit := running.maxSteps, input := input } with
  | .error error => throw (Exit.faulted error.message)
  | .ok loaded =>
      let start ←
        if running.restore = [] then pure loaded.machine
        else restore context running.restore loaded
      let (machine, error) := start.run loaded.image
      context.print machine.toCore.output
      if running.showState then context.printError (stateLine machine)
      if running.snapshot ≠ [] then save context running.snapshot loaded.image machine
      match error with
      | some fault => throw (Exit.faulted (utf8 "runtime error: " ++ fault.message))
      | none =>
          if machine.exitCode ≠ 0 then throw ⟨machine.exitCode.toNat % 256, none⟩

def tokens (context : Context m) (path charset : Bytes) : Task m Unit := do
  let source ← context.readSource path charset
  let lexed := lex source
  context.print (lexed.tokens.flatMap fun token => token.text ++ [10])
  if lexed.errors ≠ [] then context.reject source (lexed.errors.map LexError.issue)

def treeText (flags : TreeFlags) (statement : Expr) : Bytes :=
  let tree := if flags.fold then statement.fold else statement
  if flags.oneLine then tree.text ++ [10] else tree.outline 0

def tree (context : Context m) (path charset : Bytes) (flags : TreeFlags) : Task m Unit := do
  let source ← context.readSource path charset
  let lexed := lex source
  if lexed.errors ≠ [] then context.reject source (lexed.errors.map LexError.issue)
  let parsed := parse lexed.tokens
  if parsed.errors ≠ [] then context.reject source (parsed.errors.map ParseError.issue)
  context.print (parsed.statements.flatMap (treeText flags))
  if flags.variableNames then
    context.print (utf8 "variables: " ++
      Text.join (utf8 " ") (programNames parsed.statements) ++ [10])

/-! The interactive session and its history. -/

/-- The longest line that is read in one piece, with its newline. -/
def lineLimit : Nat := 4096

def historyLimit : Nat := 1000

def dropLineEnd (line : Bytes) : Bytes :=
  match line.reverse with
  | 10 :: 13 :: before => before.reverse
  | 10 :: before => before.reverse
  | _ => line

/-- The pieces of a line that is longer than the limit. Each step takes at least one byte. -/
def piecesFrom : Nat → Bytes → List Bytes
  | 0, _ => []
  | fuel + 1, line =>
      if line.length < lineLimit || (line.length = lineLimit && line.getLast? = some 10) then
        if line.isEmpty then [] else [dropLineEnd line]
      else
        let piece := line.take lineLimit
        if piece.getLast? = some 13 then
          piece.dropLast :: piecesFrom fuel (line.drop (lineLimit - 1))
        else piece :: piecesFrom fuel (line.drop lineLimit)

def pieces (line : Bytes) : List Bytes := piecesFrom (line.length + 1) line

def keepLast (history : List Bytes) : List Bytes := history.drop (history.length - historyLimit)

/-- The lines of a history file up to the first that is too long or no valid text. -/
def readHistory (file : Bytes) : List Bytes :=
  keepLast (((Desk.linesOf file).takeWhile fun line =>
    (pieces line).length = 1 && Text.isValidUtf8 line).map dropLineEnd)

/-- Adds a line to a history unless it repeats the last one. -/
def remember (history : List Bytes) (line : Bytes) : List Bytes :=
  if history.getLast? = some line then history else keepLast (history ++ [line])

structure Dialogue where
  session : Session
  history : List Bytes
  ended : Bool := false

/-- Answers one line; blank lines are passed over. -/
def answerLine (context : Context m) (dialogue : Dialogue) (line : Bytes) : m Dialogue := do
  if dialogue.ended || Text.trim line = [] then return dialogue
  let (reply, session) := dialogue.session.handle line
  context.writeLog reply.log
  context.print reply.output
  context.printError reply.errors
  return ⟨session, remember dialogue.history line, reply.quit⟩

def answerLines (context : Context m) (dialogue : Dialogue) (line : Bytes) :
    m (Dialogue × Bool) := do
  let after ← (pieces line).foldlM (answerLine context) dialogue
  return (after, after.ended)

def talk (context : Context m) (opening : Dialogue) : m Dialogue :=
  context.host.eachLine opening (answerLines context)

def historyPath (history home : Bytes) : Bytes :=
  if history = [] then Path.join home (utf8 ".exprc_history") else history

def homeOf (environment : Table Bytes) : Bytes := (environment.find? (utf8 "HOME")).getD []

def converse (context : Context m) (history : Bytes) (flags : CompileFlags) : Task m Unit := do
  let options ← context.compileOptions flags
  let path := historyPath history (homeOf (← context.host.environment))
  let earlier := ((← context.host.read path).toOption.map readHistory).getD []
  context.print (utf8 "exprc interactive session. Type :help for commands.\n")
  let opening : Dialogue :=
    ⟨{ options := options, reporting := context.reportOptions }, earlier, false⟩
  let dialogue ← (talk context opening : m Dialogue)
  if !dialogue.ended then context.print [10]
  discard (context.host.write path (dialogue.history.flatMap fun line => line ++ [10]))

def serve (context : Context m) (address : Bytes) : Task m Unit := do
  let config :=
    if address = [] then context.config else { context.config with address := address }
  context.writeLog [⟨.info, utf8 "server listening", [(utf8 "addr", .text config.address)]⟩]
  match ← context.host.serve context.log config with
  | .ok _ => context.writeLog [⟨.info, utf8 "server shutting down", []⟩]
  | .error error => throw (Exit.failure error.message)

/-! Everything together. -/

def perform (context : Context m) : Command → Task m Unit
  | .build source output compiling => build context source output compiling
  | .run source running compiling => run context source running compiling
  | .tokens source charset => tokens context source charset
  | .tree source charset showing => tree context source charset showing
  | .session history compiling => converse context history compiling
  | .serve address => serve context address

/-- Loads the settings; variables of a file `.env` stay set even if something is wrong after it. -/
def loadSettings (host : Host m) (path : Bytes) : Task m Config := do
  match ← host.toFileSystem.readEnvironment (← host.environment) with
  | .error error => throw (Exit.usage error.message)
  | .ok environment =>
      host.setEnvironment environment
      match ← host.toFileSystem.loadConfig host.charsets environment path with
      | .error error => throw (Exit.usage error.message)
      | .ok config => return config

def obey (host : Host m) (arguments : List Bytes) : Task m Unit := do
  let places : Command.Places := ⟨← host.workingDirectory, homeOf (← host.environment)⟩
  match Command.read places arguments with
  | .error error => throw (Exit.usage error.message)
  | .ok .help => host.print Command.helpText
  | .ok (.perform flags command) =>
      let config := flags.apply (← loadSettings host flags.config)
      match LogLevel.ofText? config.logLevel with
      | none => throw (Exit.usage (LogLevel.unknownMessage config.logLevel))
      | some level =>
          perform ⟨host, config, ⟨level, .ofText config.logFormat⟩, ← host.isTerminal⟩ command

def execute (host : Host m) (arguments : List Bytes) : m Nat := do
  match ← (obey host arguments).run with
  | .ok _ => return 0
  | .error exit =>
      match exit.message with
      | some message => host.printError (utf8 "error: " ++ message ++ [10])
      | none => pure ()
      return exit.code

end CommandLine
end ExprCompiler
