import ExprCompiler.Compile
import ExprCompiler.Diagnostics
import ExprCompiler.Expr.Evaluate
import ExprCompiler.Machine.Load
import ExprCompiler.Machine.Step

/-!
An interactive session. A line is an expression to compile or a command that starts with a colon.
Assignments of evaluated expressions last, and a program that is run reads its variables from them.
-/

namespace ExprCompiler

structure Session where
  options : CompileOptions
  reporting : ReportOptions
  environment : Environment := []

structure Reply where
  /-- Whether the session ends here. -/
  quit : Bool := false
  log : List LogRecord := []
  output : Bytes := []
  errors : Bytes := []
  deriving DecidableEq, Repr

inductive ProgramError where
  | load (error : LoadError)
  | run (error : RunError)
  deriving DecidableEq, Repr

def ProgramError.message : ProgramError → Bytes
  | .load error => error.message
  | .run error => error.message

structure ProgramRun where
  output : Bytes
  error : Option ProgramError
  deriving DecidableEq, Repr

def runListing (listing input : Bytes) : ProgramRun :=
  match loadListing listing { input := input } with
  | .error error => ⟨[], some (.load error)⟩
  | .ok loaded =>
      let (machine, error) := loaded.machine.run loaded.image
      ⟨machine.toCore.output, error.map .run⟩

inductive InputError where
  | unset (name : Bytes)
  | notInteger (name : Bytes)
  deriving DecidableEq, Repr

def InputError.message : InputError → Bytes
  | .unset name =>
      utf8 "variable " ++ name ++ utf8 " has no value; set it with :eval " ++ name ++ utf8 " := ..."
  | .notInteger name => utf8 "variable " ++ name ++ utf8 " is not an integer"

/-- The input of a program that reads these variables in order, one on a line. -/
def variableInput (environment : Environment) : List Bytes → Except InputError Bytes
  | [] => .ok []
  | name :: rest =>
      match environment.find? name with
      | none => .error (.unset name)
      | some (.int word) =>
          (variableInput environment rest).map fun later => word.text ++ 10 :: later
      | some _ => .error (.notInteger name)

namespace Session

def helpLines : List String :=
  ["Enter an expression to see its assembly. Commands:",
    "  :eval <expr>    evaluate directly; assignments persist",
    "  :run <expr>     compile and run, reading variables from the session",
    "  :tokens <expr>  show tokens",
    "  :ast <expr>     show the syntax tree",
    "  :env            show session variables",
    "  :help           show this help",
    "  :quit           leave"]

def helpText : Bytes := helpLines.flatMap fun line => utf8 line ++ [10]

def reportOf (session : Session) (source : Bytes) (issues : List Issue) : Bytes :=
  report session.reporting source issues

def failureLine (session : Session) (label : String) (message : Bytes) : Bytes :=
  ReportPart.label.paint session.reporting.colored (utf8 label) ++ utf8 " " ++ message ++ [10]

def compileLine (session : Session) (source : Bytes) : Reply :=
  match compileLogged session.options source with
  | (.error error, log) => { log := log, errors := session.reportOf source error.issues }
  | (.ok output, log) =>
      match output.assembly.text session.options.charsets with
      | .error problem => { log := log, errors := session.failureLine "error:" problem }
      | .ok listing => { log := log, output := listing }

def runLine (session : Session) (source : Bytes) : Reply :=
  match compileLogged session.options source with
  | (.error error, log) => { log := log, errors := session.reportOf source error.issues }
  | (.ok output, log) =>
      match variableInput session.environment output.variableNames with
      | .error error => { log := log, errors := session.failureLine "error:" error.message }
      | .ok input =>
          match output.assembly.text session.options.charsets with
          | .error problem => { log := log, errors := session.failureLine "error:" problem }
          | .ok listing =>
              let result := runListing listing input
              { log := log, output := result.output,
                errors := match result.error with
                  | some error => session.failureLine "runtime error:" error.message
                  | none => [] }

/-- The tree of the expression at the front of a source; what follows it is not looked at. -/
def readTree (source : Bytes) : Except (List Issue) Expr :=
  let lexed := lex source
  if lexed.errors ≠ [] then .error (lexed.errors.map LexError.issue)
  else
    match parseExpression lexed.tokens with
    | .ok tree => .ok tree
    | .error error => .error [error.issue]

def tokensLine (session : Session) (source : Bytes) : Reply :=
  let lexed := lex source
  if lexed.errors ≠ [] then
    { errors := session.reportOf source (lexed.errors.map LexError.issue) }
  else { output := lexed.tokens.flatMap fun token => token.text ++ [10] }

def treeLine (session : Session) (source : Bytes) : Reply :=
  match readTree source with
  | .error issues => { errors := session.reportOf source issues }
  | .ok tree => { output := tree.outline 0 }

/-- Evaluates an expression; assignments stay, also those made before a failure. -/
def evaluateLine (session : Session) (source : Bytes) : Reply × Session :=
  match readTree source with
  | .error issues => ({ errors := session.reportOf source issues }, session)
  | .ok tree =>
      let (result, scope) := tree.evaluate (some session.environment)
      let after := { session with environment := scope.getD session.environment }
      match result with
      | .error error => ({ errors := session.reportOf source [error.issue] }, after)
      | .ok value => ({ output := value.plain ++ [10] }, after)

def environmentLine (session : Session) : Reply :=
  { output := session.environment.sorted.flatMap fun entry =>
      entry.1 ++ utf8 " = " ++ entry.2.plain ++ [10] }

inductive Command where
  | quit | help | evaluate | run | tokens | tree | environment
  deriving DecidableEq, Repr

def commandNames : List (String × Command) :=
  [(":quit", .quit), (":q", .quit), (":exit", .quit), (":help", .help), (":eval", .evaluate),
    (":run", .run), (":tokens", .tokens), (":ast", .tree), (":env", .environment)]

/-- Commands are named without regard to case. -/
def command? (name : Bytes) : Option Command :=
  (commandNames.find? fun entry => utf8 entry.1 == Text.lowerCase name).map Prod.snd

def obey (session : Session) (argument : Bytes) : Command → Reply × Session
  | .quit => ({ quit := true }, session)
  | .help => ({ output := helpText }, session)
  | .evaluate => session.evaluateLine argument
  | .run => (session.runLine argument, session)
  | .tokens => (session.tokensLine argument, session)
  | .tree => (session.treeLine argument, session)
  | .environment => (session.environmentLine, session)

def handle (session : Session) (input : Bytes) : Reply × Session :=
  let line := Text.trim input
  if line.head? ≠ some 0x3a then (session.compileLine line, session)
  else
    let name := line.takeWhile (· != 0x20)
    let argument := Text.trim (line.dropWhile (· != 0x20))
    match command? name with
    | some command => session.obey argument command
    | none =>
        ({ output := utf8 "unknown command " ++ name ++ utf8 ". Type :help for a list.\n" },
          session)

end Session
end ExprCompiler
