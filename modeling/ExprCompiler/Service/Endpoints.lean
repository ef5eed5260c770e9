import ExprCompiler.Config.Basic
import ExprCompiler.Json.Basic
import ExprCompiler.Json.Object
import ExprCompiler.Machine.Load
import ExprCompiler.Machine.Step
import ExprCompiler.Service.Http

/-!
What the service does with the body of a request: it compiles the source, and also runs the program
if asked to. All answers are JSON.
-/

namespace ExprCompiler

structure CompileRequest where
  source : Bytes := []
  fold : Option Bool := none
  peephole : Option Bool := none
  division : Bytes := []
  /-- What a program reads when it is run. -/
  input : Bytes := []
  deriving DecidableEq, Repr

structure CompileOutcome where
  stage : Bytes
  result : Bytes
  deriving DecidableEq, Repr

structure EndpointResult where
  response : HttpResponse
  outcome : Option CompileOutcome := none
  log : List LogRecord := []
  deriving DecidableEq, Repr

namespace CompileRequest

def fields : List (Json.Field CompileRequest) :=
  [⟨"division", .lift (·.division) (fun request name => { request with division := name })
      Json.Reader.text⟩,
    ⟨"fold", .lift (·.fold) (fun request flag => { request with fold := flag })
      Json.Reader.flag⟩,
    ⟨"input", .lift (·.input) (fun request content => { request with input := content })
      Json.Reader.text⟩,
    ⟨"peephole", .lift (·.peephole) (fun request flag => { request with peephole := flag })
      Json.Reader.flag⟩,
    ⟨"source", .lift (·.source) (fun request content => { request with source := content })
      Json.Reader.text⟩]

/-- A longer body is refused, unless its first value ends before this many bytes. -/
def bodyLimit : Nat := 1048576

/-- Reads a body; what follows its first value is not looked at. -/
def ofBody? (body : Bytes) : Option CompileRequest :=
  let fits := (body.drop bodyLimit).isEmpty
  Json.readStream (Json.Reader.record fields) {}
    (if fits then body else body.take (bodyLimit - 1)) fits

/-- The options of the settings, as far as the request does not change them. Fails with the name of
an unknown mode. -/
def options (charsets : CharsetRegistry) (config : Config) (request : CompileRequest) :
    Except Bytes CompileOptions :=
  let name := if request.division = [] then config.division else request.division
  match DivisionMode.ofText? name with
  | none => .error name
  | some division =>
      .ok { peephole := request.peephole.getD config.peephole, division := division,
            encoding := config.encoding, charsets := charsets,
            fold := request.fold.getD config.fold }

end CompileRequest

namespace Endpoint

def json (status : Nat) (value : Json) : HttpResponse where
  status := status
  headers := [(utf8 "Content-Type", utf8 "application/json")]
  body := value.compact true ++ [10]

/-- A member that is left out if its text is empty. -/
def optionalText (name : String) (content : Bytes) : List (Bytes × Json) :=
  if content = [] then [] else [Json.member name (.string content)]

def errorItem (issue : Issue) (kind : Bytes) : Json :=
  let place := match issue.position with
    | some position =>
        [Json.member "line" (.int position.line),
          Json.member "first_column" (.int position.columns.first),
          Json.member "last_column" (.int position.columns.last)]
    | none => []
  .object (place ++ [Json.member "message" (.string issue.text)] ++ optionalText "kind" kind)

def failure (status : Nat) (stage : Bytes) (errors : List Json) (output : Bytes) : HttpResponse :=
  json status
    (.object (optionalText "stage" stage ++ [Json.member "errors" (.list errors)] ++
      optionalText "output" output))

def rejection (status : Nat) (stage message kind : Bytes) (output : Bytes) : HttpResponse :=
  failure status stage [errorItem (.plain message) kind] output

def parseKind : ParseCause → Bytes
  | .closingParenExpected | .semicolonExpected => utf8 "ExpectedToken"
  | .invalidAssignmentTarget => utf8 "InvalidAssignmentTarget"
  | .trailingInput => utf8 "TrailingInput"
  | .unexpectedExpression | .expressionExpected => utf8 "UnexpectedExpression"

def compileErrors : CompileError → List Json
  | .lex errors => errors.map fun error => errorItem error.issue error.kind.name
  | .parse errors => errors.map fun error => errorItem error.issue (parseKind error.cause)
  | .codegen errors => errors.map fun error => errorItem error.issue error.kind.name

def faultKind : Fault → Bytes
  | .divisionByZero | .quotientOverflow => utf8 "DivideError"
  | .stepLimit _ => utf8 "StepLimit"
  | .input _ => utf8 "Input"
  | _ => []

def programMembers (output : Output) (listing : Bytes) : List (Bytes × Json) :=
  [Json.member "assembly" (.string listing),
    Json.member "encoding" (.string output.assembly.encoding),
    Json.member "variables" (.strings output.variableNames)]

def wordMembers (table : Table Word) : Json :=
  .object (table.sorted.map fun entry => (entry.1, Json.int entry.2.toInt))

/-- The first word of every reservation that holds one. -/
def reservedWords (image : Image) (machine : Machine) : Table Word :=
  (machine.reservations image).filterMap fun entry =>
    if 4 ≤ entry.2.length then some (entry.1, ofLittleEndian (entry.2.take 4)) else none

def stateJson (image : Image) (machine : Machine) : Json :=
  .object
    [Json.member "registers"
        (wordMembers (Register.all.map fun name => (name.text, machine.registers.get name))),
      Json.member "stack" (.list ((machine.stack image).map fun word => Json.int word.toInt)),
      Json.member "memory" (wordMembers (reservedWords image machine)),
      Json.member "exit_code" (.int machine.exitCode.toInt),
      Json.member "steps" (.int machine.steps)]

def run (input : Bytes) (output : Output) (listing : Bytes) : HttpResponse × List LogRecord :=
  match loadListing listing { input := input } with
  | .error error =>
      (rejection 500 (utf8 "load") error.message [] [],
        [⟨.error, utf8 "generated assembly failed to load",
          [(utf8 "error", .text error.message)]⟩])
  | .ok loaded =>
      match loaded.machine.run loaded.image with
      | (machine, some error) =>
          (rejection 422 (utf8 "run") error.message (faultKind error.fault) machine.toCore.output,
            [])
      | (machine, none) =>
          (json 200
            (.object (programMembers output listing ++
              [Json.member "output" (.string machine.toCore.output),
                Json.member "state" (stateJson loaded.image machine)])), [])

def undecoded (output : Output) (problem : Bytes) : HttpResponse × List LogRecord :=
  (rejection 500 [] problem [] [],
    [⟨.error, utf8 "assembly could not be decoded",
      [(utf8 "encoding", .text output.assembly.encoding), (utf8 "error", .text problem)]⟩])

/-- Compiles the source of a body and answers with what `next` makes of the program and its
listing. -/
def compileBody (charsets : CharsetRegistry) (config : Config) (body : Bytes)
    (next : CompileRequest → Output → Bytes → HttpResponse × List LogRecord) : EndpointResult :=
  match CompileRequest.ofBody? body with
  | none => { response := rejection 400 [] (utf8 "invalid request body: malformed") [] [] }
  | some request =>
      match request.options charsets config with
      | .error name => { response := rejection 400 [] (DivisionMode.unknownMessage name) [] [] }
      | .ok options =>
          match compileLogged options request.source with
          | (.error error, log) =>
              { response := failure 422 error.stage (compileErrors error) [],
                outcome := some ⟨error.stage, utf8 "error"⟩,
                log := log }
          | (.ok output, log) =>
              let (response, later) :=
                match output.assembly.text charsets with
                | .ok listing => next request output listing
                | .error problem => undecoded output problem
              { response := response, outcome := some ⟨utf8 "translate", utf8 "ok"⟩,
                log := log ++ later }

def compile (charsets : CharsetRegistry) (config : Config) (body : Bytes) : EndpointResult :=
  compileBody charsets config body fun _ output listing =>
    (json 200 (.object (programMembers output listing)), [])

def compileAndRun (charsets : CharsetRegistry) (config : Config) (body : Bytes) :
    EndpointResult :=
  compileBody charsets config body fun request => run request.input

def health : HttpResponse := json 200 (.object [Json.member "status" (.string (utf8 "ok"))])

end Endpoint
end ExprCompiler
