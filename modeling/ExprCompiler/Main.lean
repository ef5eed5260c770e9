import ExprCompiler.CommandLine.Run
import ExprCompiler.Log.Stamp
import ExprCompiler.Service.Basic
import ExprCompiler.Service.Wire
import Std.Async.TCP
import Std.Time.DateTime.Timestamp

/-!
The program on a real machine: its host reads and writes files, the console, the clock and the
network. Everything that is decided is decided elsewhere.
-/

namespace ExprCompiler.Machinery

/-- A text for the operating system; what is no valid UTF-8 is replaced. -/
def toText (bytes : Bytes) : String :=
  String.ofList ((Text.glyphs bytes).map fun glyph => Char.ofNat glyph.code)

def toArray (bytes : Bytes) : ByteArray := ⟨bytes.toArray⟩

def ofArray (bytes : ByteArray) : Bytes := bytes.data.toList

def faultOf : IO.Error → FileFault
  | .noFileOrDirectory _ _ _ => .notFound
  | error => .other (utf8 (toString error))

def attempt {Result : Type} (action : FileAction) (path : Bytes) (work : IO Result) :
    IO (Except FileError Result) := do
  try
    return .ok (← work)
  catch error =>
    let isDirectory ← (← IO.currentDir) / toText path |>.isDir
    return .error ⟨action, path, if isDirectory then .isDirectory else faultOf error⟩

def statFile (path : Bytes) : IO (Except FileError FileKind) :=
  attempt .stat path do
    let data ← ((← IO.currentDir) / toText path).metadata
    return match data.type with
      | .file => .regular
      | .dir => .directory
      | _ => .special

def readFile (path : Bytes) : IO (Except FileError Bytes) :=
  attempt .opening path do return ofArray (← IO.FS.readBinFile (toText path))

def writeFile (path contents : Bytes) : IO (Except FileError Unit) :=
  attempt .opening path (IO.FS.writeBinFile (toText path) (toArray contents))

def readVariables : IO (Table Bytes) := do
  let found ← (utf8 "HOME" :: Config.variableNames).mapM fun name => do
    return (← IO.getEnv (toText name)).map fun value => (name, utf8 value)
  return found.filterMap id

partial def readAll (stream : IO.FS.Stream) (found : ByteArray) : IO ByteArray := do
  let more ← stream.read 65536
  if more.isEmpty then return found else readAll stream (found ++ more)

partial def readLine (stream : IO.FS.Stream) (found : ByteArray) : IO ByteArray := do
  let more ← stream.read 1
  if more.isEmpty || more[0]? = some 10 then return found ++ more
  else readLine stream (found ++ more)

def write (stream : IO.FS.Stream) (text : Bytes) : IO Unit := do
  stream.write (toArray text)
  stream.flush

partial def eachLine {State : Type} (state : State)
    (step : State → Bytes → IO (State × Bool)) : IO State := do
  let input ← IO.getStdin
  if ← input.isTty then write (← IO.getStdout) (utf8 "exprc> ")
  let line ← readLine input .empty
  if line.isEmpty then return state
  let (next, enough) ← step state (ofArray line)
  if enough then return next else eachLine next step

def milliseconds : IO Nat := do
  return (← Std.Time.Timestamp.now).toMillisecondsSinceUnixEpoch.toInt.toNat

/-- The clock; elapsed times are counted from `start`. -/
def readTime (start : Nat) : IO LogTime := do
  let elapsed := (← IO.monoNanosNow) - start
  return ⟨Stamp.text (← milliseconds), Stamp.elapsedText elapsed, Text.decimal elapsed⟩

/-! Serving. -/

def addressText : Std.Net.SocketAddress → Bytes
  | .v4 address => utf8 (address.addr.toString ++ ":" ++ toString address.port)
  | .v6 address => utf8 ("[" ++ address.addr.toString ++ "]:" ++ toString address.port)

/-- Receives until a request is complete or cannot be one. -/
partial def receive (client : Std.Async.TCP.Socket.Client) (data : Bytes) :
    Std.Async.Async Wire.Received := do
  match Wire.receive data with
  | .incomplete =>
      match ← client.recv? 65536 with
      | none => return .malformed
      | some more => receive client (data ++ ofArray more)
  | received => return received

def answer (client : Std.Async.TCP.Socket.Client) (peer : Bytes) (arrival : Nat)
    (service : Service) : Std.Async.Async (List LogRecord × Service) := do
  match ← receive client [] with
  | .complete request =>
      let (response, log, after) :=
        service.handle { request with client := peer, arrival := arrival }
      client.send (toArray (Wire.send response))
      client.shutdown
      return (log, after)
  | _ =>
      client.shutdown
      return ([], service)

partial def serveFrom (settings : LogSettings) (server : Std.Async.TCP.Socket.Server)
    (service : Service) : IO Unit := do
  let start ← IO.monoNanosNow
  let client ← server.accept.block
  let peer := addressText (← client.getPeerName)
  let after ←
    try
      let (log, after) ← (answer client peer (← milliseconds) service).block
      write (← IO.getStderr) (settings.lines (← readTime start) log)
      pure after
    catch _ => pure service
  serveFrom settings server after

/-- The socket address of a host and a port; an empty host means all addresses. -/
def socketAddress? (host port : Bytes) : Option Std.Net.SocketAddress :=
  let number := (Text.readDigits 10 65535 0 port).toOption.getD 0
  let name := if host = [] then utf8 "0.0.0.0" else if host = utf8 "localhost" then
    utf8 "127.0.0.1" else host
  (Std.Net.IPv4Addr.ofString (toText name)).map fun address =>
    .v4 ⟨address, UInt16.ofNat number⟩

def serve (settings : LogSettings) (config : Config) : IO (Except Address.ListenError Unit) := do
  match Address.listenError? config.address, Address.split config.address with
  | some error, _ => return .error error
  | none, .error problem => return .error (.malformed config.address problem)
  | none, .ok (host, port) =>
      match socketAddress? host port with
      | none => return .error (.other (utf8 "lookup " ++ host ++ utf8 ": no such host"))
      | some address =>
          try
            let server ← Std.Async.TCP.Socket.Server.mk
            server.bind address
            server.listen 128
            serveFrom settings server { config := config }
            return .ok ()
          catch error => return .error (.other (utf8 (toString error)))

/-! The host. -/

def host (start : Nat) (environment : IO.Ref (Table Bytes)) : Host IO where
  workingDirectory := return utf8 (← IO.currentDir).toString
  stat := statFile
  read := readFile
  write := writeFile
  charsets := .common
  environment := environment.get
  setEnvironment := environment.set
  readInput := do return ofArray (← readAll (← IO.getStdin) .empty)
  eachLine := eachLine
  print text := do write (← IO.getStdout) text
  printError text := do write (← IO.getStderr) text
  isTerminal := do (← IO.getStdout).isTty
  time := readTime start
  serve := serve

end ExprCompiler.Machinery

def main (arguments : List String) : IO UInt32 := do
  let start ← IO.monoNanosNow
  let environment ← IO.mkRef (← ExprCompiler.Machinery.readVariables)
  let code ← ExprCompiler.CommandLine.execute (ExprCompiler.Machinery.host start environment)
    (arguments.map ExprCompiler.utf8)
  return UInt32.ofNat code
