import ExprCompiler.Service.Http

/-!
Requests and responses as they go over a connection: lines that end in a carriage return and a line
feed, an empty line, and a body whose length a header tells. Every connection carries one request.
-/

namespace ExprCompiler.Wire

inductive Received where
  | incomplete
  | malformed
  | complete (request : HttpRequest)
  deriving DecidableEq, Repr

def headLimit : Nat := 65536

/-- Splits at the first empty line; `before` holds what was passed, last first. -/
def splitHead (before : Bytes) : Bytes → Option (Bytes × Bytes)
  | 13 :: 10 :: 13 :: 10 :: rest => some (before.reverse, rest)
  | byte :: rest => splitHead (byte :: before) rest
  | [] => none

def dropReturn (line : Bytes) : Bytes :=
  if line.getLast? = some 13 then line.dropLast else line

def isSpace (byte : UInt8) : Bool := byte == 0x20 || byte == 9

def trimSpace (text : Bytes) : Bytes :=
  ((text.dropWhile isSpace).reverse.dropWhile isSpace).reverse

def headerOf? (line : Bytes) : Option (Bytes × Bytes) :=
  match line.dropWhile (· != 0x3a) with
  | [] => none
  | _ :: value => some (line.takeWhile (· != 0x3a), trimSpace value)

def requestOf? (head : Bytes) : Option HttpRequest :=
  match (Text.lines head).map dropReturn with
  | [] => none
  | first :: rest =>
      match Text.splitOn 0x20 first, rest.mapM headerOf? with
      | [method, target, _], some headers =>
          some { method := method, target := target, headers := headers, client := [] }
      | _, _ => none

/-- How long the body of a request is; without a length there is none. -/
def bodyLength? (request : HttpRequest) : Option Nat :=
  let length := request.header "content-length"
  if length = [] then some 0
  else if length.all Text.isDecimalByte then
    (Text.readDigits 10 0x7fffffffffffffff 0 length).toOption
  else none

def receive (data : Bytes) : Received :=
  match splitHead [] data with
  | none => if headLimit < data.length then .malformed else .incomplete
  | some (head, rest) =>
      match requestOf? head with
      | none => .malformed
      | some request =>
          match bodyLength? request with
          | none => .malformed
          | some length =>
              if rest.length < length then .incomplete
              else .complete { request with body := rest.take length }

def reason (status : Nat) : Bytes :=
  if status = 200 then utf8 "OK"
  else if status = 400 then utf8 "Bad Request"
  else if status = 404 then utf8 "Not Found"
  else if status = 405 then utf8 "Method Not Allowed"
  else if status = 422 then utf8 "Unprocessable Entity"
  else if status = 429 then utf8 "Too Many Requests"
  else if status = 500 then utf8 "Internal Server Error"
  else utf8 "Unknown"

def headerLine (name value : Bytes) : Bytes := name ++ utf8 ": " ++ value ++ [13, 10]

def send (response : HttpResponse) : Bytes :=
  utf8 "HTTP/1.1 " ++ Text.decimal response.status ++ utf8 " " ++ reason response.status ++
    [13, 10] ++
    (response.headers.flatMap fun header => headerLine header.1 header.2) ++
    headerLine (utf8 "Content-Length") (Text.decimal response.body.length) ++
    headerLine (utf8 "Connection") (utf8 "close") ++ [13, 10] ++ response.body

end ExprCompiler.Wire
