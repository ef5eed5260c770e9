import ExprCompiler.Service.Http

/-!
Requests from pages of other origins. A browser asks first whether a request is allowed, and lets a
page see an answer only if the answer names the page's origin.
-/

namespace ExprCompiler.Cors

def allowedMethods : List String := ["GET", "POST", "OPTIONS"]

def allowedHeaders : List String := ["accept", "content-type", "origin"]

/-- How long a browser may remember the answer, in seconds. -/
def maxAge : Nat := 300

def startsWith (start text : Bytes) : Bool := (Text.afterWord? start text).isSome

/-- Whether an origin, in lower case, fits an allowed one, where one star stands for any text. -/
def originFits (origin allowed : Bytes) : Bool :=
  let rule := Text.lowerCase allowed
  if rule.contains 0x2a then
    let front := rule.takeWhile (· != 0x2a)
    let back := (rule.dropWhile (· != 0x2a)).drop 1
    front.length + back.length ≤ origin.length && startsWith front origin &&
      startsWith back.reverse origin.reverse
  else origin == rule

def allowsAll (origins : List Bytes) : Bool := origins.contains (utf8 "*")

def allowsOrigin (origins : List Bytes) (origin : Bytes) : Bool :=
  allowsAll origins || origins.any (originFits (Text.lowerCase origin))

/-- The capital of a letter as far as it is an ASCII letter: besides the ASCII letters themselves
the dotless i and the long s have one. No other character can be part of the name of a method, so
the others are left as they are. -/
def capital (code : Nat) : Nat :=
  if 97 ≤ code && code ≤ 122 then code - 32
  else if code = 0x131 then 0x49
  else if code = 0x17f then 0x53
  else code

def upperCase (text : Bytes) : Bytes :=
  (Text.glyphs text).flatMap fun glyph => Text.encodeScalar (capital glyph.code)

def allowsMethod (method : Bytes) : Bool :=
  allowedMethods.any fun name => utf8 name == upperCase method

def isHeaderByte (byte : UInt8) : Bool :=
  (Text.digitValue? byte).isSome || byte == 0x2d || byte == 0x5f || byte == 0x2e

/-- A letter in upper case at the start of a word and in lower case inside. -/
def cased (upper : Bool) (byte : UInt8) : UInt8 :=
  let lower := Text.asciiLower byte
  if upper && 97 ≤ lower.toNat && lower.toNat ≤ 122 then lower - 32 else lower

/-- The header names of a list, each with capitals at the start of its words. `name` holds the name
being read, last byte first. -/
def headerNames (upper : Bool) (name : Bytes) : Bytes → List Bytes
  | [] => if name = [] then [] else [name.reverse]
  | byte :: rest =>
      if byte = 0x20 || byte = 0x2c then
        if name = [] then headerNames upper [] rest
        else name.reverse :: headerNames true [] rest
      else
        let longer := if isHeaderByte byte then cased upper byte :: name else name
        headerNames (byte == 0x2d || byte == 0x5f) longer rest

def allowsHeaders (names : List Bytes) : Bool :=
  names.all fun name => allowedHeaders.any fun allowed => utf8 allowed == Text.lowerCase name

def isPreflight (request : HttpRequest) : Bool :=
  request.method == utf8 "OPTIONS" && request.header "access-control-request-method" != [] &&
    (request.header? "origin").isSome

def namedOrigin (origins : List Bytes) (origin : Bytes) : Bytes :=
  if allowsAll origins then utf8 "*" else origin

def preflight (origins : List Bytes) (request : HttpRequest) : HttpResponse :=
  let varied : HttpResponse :=
    { status := 200,
      headers := [(utf8 "Vary",
        utf8 "Origin, Access-Control-Request-Method, Access-Control-Request-Headers")] }
  let origin := request.header "origin"
  let method := request.header "access-control-request-method"
  let names := headerNames true [] (request.header "access-control-request-headers")
  if allowsOrigin origins origin && allowsMethod method && allowsHeaders names then
    let named := (varied.withHeader "Access-Control-Allow-Origin" (namedOrigin origins origin))
      |>.withHeader "Access-Control-Allow-Methods" (upperCase method)
    let listed :=
      if names = [] then named
      else named.withHeader "Access-Control-Allow-Headers" (Text.join (utf8 ", ") names)
    listed.withHeader "Access-Control-Max-Age" (Text.decimal maxAge)
  else varied

def annotate (origins : List Bytes) (request : HttpRequest) (response : HttpResponse) :
    HttpResponse :=
  let varied := response.withHeader "Vary" (utf8 "Origin")
  match request.header? "origin" with
  | some origin =>
      if allowsOrigin origins origin && allowsMethod request.method then
        varied.withHeader "Access-Control-Allow-Origin" (namedOrigin origins origin)
      else varied
  | none => varied

end ExprCompiler.Cors
