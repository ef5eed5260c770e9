import ExprCompiler.Table
import ExprCompiler.Text.Integer
import ExprCompiler.Text.LowerCase

/-!
Requests and responses of the service, and the network addresses they come from.
-/

namespace ExprCompiler

structure HttpRequest where
  method : Bytes
  /-- The path as it was sent, with the query after it, perhaps behind a scheme and a host. -/
  target : Bytes
  headers : Table Bytes := []
  body : Bytes := []
  /-- Address of the client, usually with its port. -/
  client : Bytes
  /-- When the request came in, in milliseconds. -/
  arrival : Nat := 0
  deriving DecidableEq, Repr

structure HttpResponse where
  status : Nat
  headers : Table Bytes := []
  body : Bytes := []
  deriving DecidableEq, Repr

namespace HttpRequest

/-- The value of a header, whose name is given in lower case. -/
def header? (request : HttpRequest) (name : String) : Option Bytes :=
  Table.find? (utf8 name) (request.headers.map fun entry => (Text.lowerCase entry.1, entry.2))

def header (request : HttpRequest) (name : String) : Bytes := (request.header? name).getD []

def isAsciiLetter (byte : UInt8) : Bool :=
  97 ≤ (Text.asciiLower byte).toNat && (Text.asciiLower byte).toNat ≤ 122

def isSchemeByte (byte : UInt8) : Bool :=
  isAsciiLetter byte || Text.isDecimalByte byte || byte == 0x2b || byte == 0x2d || byte == 0x2e

def afterScheme? (target : Bytes) : Option Bytes :=
  match target.takeWhile isSchemeByte, target.dropWhile isSchemeByte with
  | first :: _, 0x3a :: rest => if isAsciiLetter first then some rest else none
  | _, _ => none

/-- The path that routes are matched with: the target without its query and, if it has a scheme,
without that and the host. -/
def route (request : HttpRequest) : Bytes :=
  let target := request.target.takeWhile (· != 0x3f)
  match afterScheme? target with
  | none => target
  | some (0x2f :: 0x2f :: authority) => authority.dropWhile (· != 0x2f)
  | some (0x2f :: path) => 0x2f :: path
  | some _ => []

def percentDecode : Bytes → Bytes
  | 0x25 :: high :: low :: rest =>
      match Text.digitValue? high, Text.digitValue? low with
      | some first, some second => UInt8.ofNat (first * 16 + second) :: percentDecode rest
      | _, _ => 0x25 :: high :: low :: percentDecode rest
  | byte :: rest => byte :: percentDecode rest
  | [] => []

def path (request : HttpRequest) : Bytes := percentDecode request.route

end HttpRequest

namespace HttpResponse

def withHeader (response : HttpResponse) (name : String) (value : Bytes) : HttpResponse :=
  { response with headers := response.headers.set (utf8 name) value }

def plainText (status : Nat) (message : String) : HttpResponse where
  status := status
  headers := [(utf8 "Content-Type", utf8 "text/plain; charset=utf-8")]
  body := utf8 message ++ [10]

end HttpResponse

/-! Addresses. -/

namespace Address

inductive SplitError where
  | missingPort
  | tooManyColons
  | missingBracket
  | strayOpening
  | strayClosing
  deriving DecidableEq, Repr

def SplitError.message : SplitError → Bytes
  | missingPort => utf8 "missing port in address"
  | tooManyColons => utf8 "too many colons in address"
  | missingBracket => utf8 "missing ']' in address"
  | strayOpening => utf8 "unexpected '[' in address"
  | strayClosing => utf8 "unexpected ']' in address"

def splitLastColon? (address : Bytes) : Option (Bytes × Bytes) :=
  let backwards := address.reverse
  match backwards.dropWhile (· != 0x3a) with
  | [] => none
  | _ :: before => some (before.reverse, (backwards.takeWhile (· != 0x3a)).reverse)

/-- A host in brackets: nothing but a colon and the port may follow the bracket. -/
def splitBracketed (address : Bytes) : Except SplitError (Bytes × Bytes) :=
  match address.dropWhile (· != 0x5d) with
  | [] => .error .missingBracket
  | _ :: 0x3a :: port =>
      let host := (address.drop 1).takeWhile (· != 0x5d)
      if port.contains 0x3a then .error .tooManyColons
      else if host.contains 0x5b || port.contains 0x5b then .error .strayOpening
      else if port.contains 0x5d then .error .strayClosing
      else .ok (host, port)
  | _ => .error .missingPort

def split (address : Bytes) : Except SplitError (Bytes × Bytes) :=
  match splitLastColon? address with
  | none => .error .missingPort
  | some (host, port) =>
      if address.head? = some 0x5b then splitBracketed address
      else if host.contains 0x3a then .error .tooManyColons
      else if address.contains 0x5b then .error .strayOpening
      else if address.contains 0x5d then .error .strayClosing
      else .ok (host, port)

def group? (digits : Bytes) : Option Nat :=
  if digits = [] || 4 < digits.length || !digits.all Text.isHexByte then none
  else some (digits.foldl (fun value byte => value * 16 + (Text.digitValue? byte).getD 0) 0)

def octet? (digits : Bytes) : Option Nat :=
  let value := digits.foldl (fun value byte => value * 10 + (Text.digitValue? byte).getD 0) 0
  if digits = [] || 3 < digits.length || !digits.all Text.isDecimalByte || 255 < value
    || (1 < digits.length && digits.head? = some 0x30) then none
  else some value

/-- The two groups that a version 4 address stands for at the end of a version 6 one. -/
def embedded? (text : Bytes) : Option (List Nat) :=
  match (Text.splitOn 0x2e text).mapM octet? with
  | some [first, second, third, fourth] => some [first * 256 + second, third * 256 + fourth]
  | _ => none

/-- Groups between single colons; only the last may be a version 4 address. -/
def groups? (text : Bytes) : Option (List Nat) :=
  let parts := Text.splitOn 0x3a text
  match parts.dropLast.mapM group?, parts.getLast? with
  | some groups, some last =>
      if last.contains 0x2e then (embedded? last).map (groups ++ ·)
      else (group? last).map fun group => groups ++ [group]
  | _, _ => none

/-- Splits at the first pair of colons; `before` holds what was passed, last first. -/
def splitGap (before : Bytes) : Bytes → Option (Bytes × Bytes)
  | 0x3a :: 0x3a :: rest => some (before.reverse, rest)
  | byte :: rest => splitGap (byte :: before) rest
  | [] => none

def groupsOrNone? (text : Bytes) : Option (List Nat) :=
  if text = [] then some [] else groups? text

def version6? (text : Bytes) : Option (List Nat) :=
  match splitGap [] text with
  | none => (groups? text).bind fun groups => if groups.length = 8 then some groups else none
  | some (left, right) =>
      match (if left.contains 0x2e then none else groupsOrNone? left), groupsOrNone? right with
      | some first, some last =>
          if 8 ≤ first.length + last.length then none
          else some (first ++ List.replicate (8 - first.length - last.length) 0 ++ last)
      | _, _ => none

/-- What identifies a client: its host, or the first half of a version 6 address, since one client
may have all addresses that share it. -/
def clientKey (client : Bytes) : Bytes :=
  let host := match split client with
    | .ok (host, _) => host
    | .error _ => client
  match host.find? fun byte => byte == 0x2e || byte == 0x3a with
  | some 0x3a =>
      match version6? host with
      | some groups => Text.join (utf8 ":") ((groups.take 4).map Text.hexNat) ++ utf8 "::"
      | none => host
  | _ => host

/-! Addresses to listen on. -/

def serviceNames : List String :=
  ["domain", "ftp", "ftps", "gopher", "http", "https", "imap2", "imap3", "imaps", "pop3", "pop3s",
    "smtp", "submissions", "ssh", "telnet"]

inductive ListenError where
  | malformed (address : Bytes) (problem : SplitError)
  | invalidPort (port : Bytes)
  | unknownPort (port : Bytes)
  /-- The host could not listen. -/
  | other (text : Bytes)
  deriving DecidableEq, Repr

def ListenError.message (error : ListenError) : Bytes :=
  utf8 "listen tcp: " ++
    match error with
    | .malformed address problem => utf8 "address " ++ address ++ utf8 ": " ++ problem.message
    | .invalidPort port => utf8 "address " ++ port ++ utf8 ": invalid port"
    | .unknownPort port => utf8 "lookup tcp/" ++ port ++ utf8 ": unknown port"
    | .other text => text

/-- The number that the digits of a port stand for, in 32 bits; none if another character comes
before the number has grown too large for any port. -/
def portNumber? (value : Nat) : Bytes → Option Nat
  | [] => some value
  | byte :: rest =>
      if !Text.isDecimalByte byte then none
      else if 1073741824 ≤ value then some 4294967295
      else
        let shifted := value * 10 % 4294967296
        let next := shifted + (Text.digitValue? byte).getD 0
        if 4294967295 < next then some 4294967295 else portNumber? next rest

def listenError? (address : Bytes) : Option ListenError :=
  match split address with
  | .error problem => some (.malformed address problem)
  | .ok (_, port) =>
      let (negative, digits) := Text.splitSign port
      match portNumber? 0 digits with
      | some value =>
          if 65535 < value || (negative && value != 0) then some (.invalidPort port) else none
      | none =>
          if serviceNames.any fun name => Text.lowerCase port == utf8 name then none
          else some (.unknownPort port)

end Address
end ExprCompiler
