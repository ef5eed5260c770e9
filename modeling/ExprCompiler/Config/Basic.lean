import ExprCompiler.Compile
import ExprCompiler.Diagnostics
import ExprCompiler.Files.Basic
import ExprCompiler.Text.Integer

/-!
The settings of the program, as they are given: names of modes, charsets and levels are texts until
they are used. Only settings that pass the check here are ever used.
-/

namespace ExprCompiler

structure Config where
  fold : Bool := true
  peephole : Bool := true
  division : Bytes := utf8 "sign"
  encoding : Bytes := utf8 "UTF-8"
  maxErrors : Int := 10
  color : Bool := true
  logLevel : Bytes := utf8 "info"
  logFormat : Bytes := utf8 "text"
  address : Bytes := utf8 ":8080"
  corsOrigins : List Bytes := []
  /-- Requests for every client in a minute; zero means no limit. -/
  rateLimit : Int := 0
  deriving DecidableEq, Repr

def Config.blank : Config where
  fold := false
  peephole := false
  division := []
  encoding := []
  maxErrors := 0
  color := false
  logLevel := []
  logFormat := []
  address := []

inductive ConfigFault where
  | notBool (key value : Bytes)
  /-- `digits` is the part of the value that was read as an integer. -/
  | notInt (key value digits : Bytes) (problem : Text.IntegerError)
  | division (value : Bytes)
  | encodingMissing
  | encodingUnknown (name : Bytes)
  | maxErrors (count : Int)
  | logLevel (name : Bytes)
  | logFormat (name : Bytes)
  | addressMissing
  | rateLimit (count : Int)
  deriving DecidableEq, Repr

namespace ConfigFault

def detail : ConfigFault → Bytes
  | notBool key value =>
      key ++ utf8 ": strconv.ParseBool: parsing " ++ Text.quote value ++
        utf8 ": invalid syntax"
  | notInt key value digits problem =>
      key ++ utf8 ": unable to cast " ++ Text.quote value ++
        utf8 " of type string to int: strconv.ParseInt: parsing " ++ Text.quote digits ++
        utf8 ": " ++ problem.message
  | division value =>
      utf8 "codegen.division '" ++ value ++ utf8 "' is invalid: must be one of sign, zero"
  | encodingMissing => utf8 "encoding is required"
  | encodingUnknown name => utf8 "encoding '" ++ name ++ utf8 "' is not supported"
  | maxErrors count =>
      utf8 "diagnostics.max_errors must be positive, got " ++ Text.decimal count
  | logLevel name =>
      utf8 "log.level '" ++ name ++ utf8 "' is invalid: must be one of debug, info, warn, error"
  | logFormat name =>
      utf8 "log.format '" ++ name ++ utf8 "' is invalid: must be one of text, json"
  | addressMissing => utf8 "server.addr is required"
  | rateLimit count =>
      utf8 "server.rate_limit must not be negative, got " ++ Text.decimal count

def message (fault : ConfigFault) : Bytes :=
  utf8 "configuration validation failed: " ++ fault.detail

end ConfigFault

namespace Config

def isOneOf (word : Bytes) (names : List String) : Bool :=
  names.any fun name => Text.lowerCase word == utf8 name

def fault? (charsets : CharsetRegistry) (config : Config) : Option ConfigFault :=
  if config.division != utf8 "sign" && config.division != utf8 "zero" then
    some (.division config.division)
  else if config.encoding = [] then some .encodingMissing
  else if (charsets.find? config.encoding).isNone then some (.encodingUnknown config.encoding)
  else if config.maxErrors < 1 then some (.maxErrors config.maxErrors)
  else if !isOneOf config.logLevel ["debug", "info", "warn", "warning", "error"] then
    some (.logLevel config.logLevel)
  else if !isOneOf config.logFormat ["text", "json"] then some (.logFormat config.logFormat)
  else if config.address = [] then some .addressMissing
  else if config.rateLimit < 0 then some (.rateLimit config.rateLimit)
  else none

/-- How issues are reported; colours need a terminal besides the setting. -/
def reportOptions (config : Config) (terminal : Bool) : ReportOptions where
  maxErrors := config.maxErrors
  colored := config.color && terminal

end Config
end ExprCompiler
