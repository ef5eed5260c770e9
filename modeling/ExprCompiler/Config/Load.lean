import ExprCompiler.Config.Document
import ExprCompiler.Config.EnvFile

/-!
Where settings come from: the defaults, then a YAML file, then environment variables, to which a
file `.env` in the working directory may add. The result is checked.
-/

namespace ExprCompiler

inductive ConfigError where
  /-- The file of environment variables cannot be read. -/
  | envFileUnreadable (error : FileError)
  | envFileMalformed
  | unreadable (error : FileError)
  | malformed
  | invalid (fault : ConfigFault)
  deriving DecidableEq, Repr

namespace ConfigError

def envFileFailure : Bytes :=
  utf8 "failed to load environment files: failed to load .env file: "

def message : ConfigError → Bytes
  | envFileUnreadable error => envFileFailure ++ error.message
  | envFileMalformed => envFileFailure ++ utf8 "malformed assignment"
  | unreadable error => utf8 "failed to read config file: " ++ error.message
  | malformed => utf8 "failed to parse config file: unexpected document"
  | invalid fault => fault.message

end ConfigError

namespace Config

def variableName (name : String) : Bytes := utf8 "EXPRC_" ++ utf8 name

def boolWords : List (String × Bool) :=
  [("1", true), ("t", true), ("T", true), ("TRUE", true), ("true", true), ("True", true),
    ("0", false), ("f", false), ("F", false), ("FALSE", false), ("false", false), ("False", false)]

def readBool? (value : Bytes) : Option Bool :=
  (boolWords.find? fun word => utf8 word.1 == value).map Prod.snd

/-- The integer part of a value with a decimal point; other values are kept. -/
def integerDigits (value : Bytes) : Bytes :=
  let (_, unsigned) := Text.splitSign value
  let sign := value.take (value.length - unsigned.length)
  let whole := unsigned.takeWhile Text.isDecimalByte
  match unsigned.dropWhile Text.isDecimalByte with
  | 0x2e :: rest =>
      if rest.all Text.isDecimalByte then sign ++ (if whole = [] then utf8 "0" else whole)
      else value
  | _ => value

def readInt (key given : Bytes) : Except ConfigFault Int :=
  let value := Text.trim given
  if value = [] then .ok 0
  else
    match Text.readInteger 64 (integerDigits value) with
    | .ok number => .ok number
    | .error problem => .error (.notInt key value (integerDigits value) problem)

/-- The items between commas, without blanks around them and without empty ones. -/
def commaItems (value : Bytes) : List Bytes :=
  ((Text.splitOn 0x2c value).map Text.trim).filter (· != [])

abbrev Override := String × (Bytes → Config → Bytes → Except ConfigFault Config)

def boolOverride (name : String) (set : Config → Bool → Config) : Override :=
  (name, fun key config value =>
    match readBool? value with
    | some flag => .ok (set config flag)
    | none => .error (.notBool key value))

def intOverride (name : String) (set : Config → Int → Config) : Override :=
  (name, fun key config value => (readInt key value).map (set config))

def textOverride (name : String) (set : Config → Bytes → Config) : Override :=
  (name, fun _ config value => .ok (set config value))

def overrides : List Override :=
  [boolOverride "OPTIMIZE_FOLD" fun config flag => { config with fold := flag },
    boolOverride "OPTIMIZE_PEEPHOLE" fun config flag => { config with peephole := flag },
    textOverride "CODEGEN_DIVISION" fun config name => { config with division := name },
    textOverride "ENCODING" fun config name => { config with encoding := name },
    intOverride "DIAGNOSTICS_MAX_ERRORS" fun config count => { config with maxErrors := count },
    boolOverride "DIAGNOSTICS_COLOR" fun config flag => { config with color := flag },
    textOverride "LOG_LEVEL" fun config name => { config with logLevel := name },
    textOverride "LOG_FORMAT" fun config name => { config with logFormat := name },
    textOverride "SERVER_ADDR" fun config address => { config with address := address },
    textOverride "SERVER_CORS_ORIGINS" fun config origins =>
      { config with corsOrigins := commaItems origins },
    intOverride "SERVER_RATE_LIMIT" fun config count => { config with rateLimit := count }]

def variableNames : List Bytes := overrides.map fun override => variableName override.1

def applyVariables (environment : Table Bytes) (config : Config) : Except ConfigFault Config :=
  overrides.foldlM
    (fun current override =>
      let key := variableName override.1
      match environment.find? key with
      | some value => override.2 key current value
      | none => .ok current)
    config

def finish (charsets : CharsetRegistry) (environment : Table Bytes) (config : Config) :
    Except ConfigFault Config :=
  match applyVariables environment config with
  | .error fault => .error fault
  | .ok result =>
      match result.fault? charsets with
      | some fault => .error fault
      | none => .ok result

/-- Settings from a file, which may be missing. -/
def fromFile (reading : Except FileError Bytes) : Except ConfigError Config :=
  match reading with
  | .ok source =>
      match applyDocument? {} source with
      | some config => .ok config
      | none => .error .malformed
  | .error error => if error.fault = .notFound then .ok {} else .error (.unreadable error)

end Config

namespace FileSystem

variable {m : Type → Type} [Monad m]

def readEnvironment (files : FileSystem m) (environment : Table Bytes) :
    m (Except ConfigError (Table Bytes)) := do
  match ← files.stat (utf8 ".env") with
  | .error _ => return .ok environment
  | .ok _ =>
      match ← files.read (utf8 ".env") with
      | .error error => return .error (.envFileUnreadable error)
      | .ok contents =>
          match EnvFile.read? contents with
          | none => return .error .envFileMalformed
          | some found => return .ok (EnvFile.addTo environment found)

/-- Loads the settings for an environment to which `.env` has been added. An empty path means that
there is no file. -/
def loadConfig (files : FileSystem m) (charsets : CharsetRegistry) (environment : Table Bytes)
    (path : Bytes) : m (Except ConfigError Config) := do
  let base ← if path = [] then pure (.ok {}) else Config.fromFile <$> files.read path
  match base with
  | .error error => return .error error
  | .ok config =>
      match Config.finish charsets environment config with
      | .error fault => return .error (.invalid fault)
      | .ok result => return .ok result

end FileSystem
end ExprCompiler
