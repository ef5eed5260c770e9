import ExprCompiler.Config.Basic
import ExprCompiler.Yaml.Value

/-!
Settings from a YAML document. The document is a map of sections; a setting that it does not name
or that it sets to null keeps its value. Names and types have to fit, but a map with a key that is
no text says nothing.
-/

namespace ExprCompiler

namespace Yaml.Value

def fits64 (value : Int) : Bool := (BitVec.ofInt 64 value).toInt == value

/-- The integer part of a fraction, which has to be below the greatest integer. -/
def wholePart? (value : Double) : Option Int :=
  if value.isAtMost (Nat.pow 2 63) then some value.toInt64 else none

/-- The integer part of a number in a text, which may not be negative. -/
def wholeText? (content : Bytes) : Option Int :=
  (Double.read? content).bind fun value =>
    if value.isNatural && value.isAtMost (Nat.pow 2 64) then some value.toInt64 else none

def asInt? : Value → Option Int
  | int value => if fits64 value then some value else none
  | float value => wholePart? value
  | text content => wholeText? content
  | _ => none

def asBool? (flag : Bool) : Value → Option Bool
  | hollow => some flag
  | bool new => some new
  | _ => none

def asText? (current : Bytes) : Value → Option Bytes
  | hollow => some current
  | value => value.written?

/-- An item of a list of texts; null is the empty text. -/
def itemText? : Value → Option Bytes
  | null => some []
  | value => value.asText? []

def asTexts? (current : List Bytes) : Value → Option (List Bytes)
  | hollow => some current
  | list items => items.mapM itemText?
  | _ => none

end Yaml.Value

namespace Config

/-- One setting of a section: its name and how a value other than null changes the settings. -/
abbrev Setter := String × (Config → Yaml.Value → Option Config)

def setterOf? (setters : List Setter) (name : Bytes) : Option Setter :=
  setters.find? fun setter => utf8 setter.1 == name

/-- Applies an entry of a map; null changes nothing. -/
def applyEntry? (setters : List Setter) (config : Config) (name : Bytes) (value : Yaml.Value) :
    Option Config :=
  (setterOf? setters name).bind fun setter =>
    match value with
    | .null => some config
    | _ => setter.2 config value

/-- The entries of a map by name, none of which may come twice. There are none if a key is no
text. -/
def namedEntries? (before : List (Bytes × Yaml.Value)) :
    List (Yaml.Value × Yaml.Value) → Option (List (Bytes × Yaml.Value))
  | [] => some before.reverse
  | (.text name, value) :: rest =>
      if before.any fun entry => entry.1 == name then none
      else namedEntries? ((name, value) :: before) rest
  | _ => some []

def applyMap? (setters : List Setter) (config : Config) : Yaml.Value → Option Config
  | .map entries =>
      (namedEntries? [] entries).bind fun named =>
        named.foldlM (fun current entry => applyEntry? setters current entry.1 entry.2) config
  | _ => none

def sectionSetter (name : String) (setters : List Setter) : Setter :=
  (name, applyMap? setters)

def optimizeSetters : List Setter :=
  [("fold", fun config value =>
      (value.asBool? config.fold).map fun flag => { config with fold := flag }),
    ("peephole", fun config value =>
      (value.asBool? config.peephole).map fun flag => { config with peephole := flag })]

def codegenSetters : List Setter :=
  [("division", fun config value =>
      (value.asText? config.division).map fun name => { config with division := name })]

def diagnosticsSetters : List Setter :=
  [("max_errors", fun config value =>
      value.asInt?.map fun count => { config with maxErrors := count }),
    ("color", fun config value =>
      (value.asBool? config.color).map fun flag => { config with color := flag })]

def logSetters : List Setter :=
  [("level", fun config value =>
      (value.asText? config.logLevel).map fun name => { config with logLevel := name }),
    ("format", fun config value =>
      (value.asText? config.logFormat).map fun name => { config with logFormat := name })]

def serverSetters : List Setter :=
  [("addr", fun config value =>
      (value.asText? config.address).map fun address => { config with address := address }),
    ("cors_origins", fun config value =>
      (value.asTexts? config.corsOrigins).map fun origins =>
        { config with corsOrigins := origins }),
    ("rate_limit", fun config value =>
      value.asInt?.map fun count => { config with rateLimit := count })]

def setters : List Setter :=
  [sectionSetter "optimize" optimizeSetters,
    sectionSetter "codegen" codegenSetters,
    ("encoding", fun config value =>
      (value.asText? config.encoding).map fun name => { config with encoding := name }),
    sectionSetter "diagnostics" diagnosticsSetters,
    sectionSetter "log" logSetters,
    sectionSetter "server" serverSetters]

/-- Applies the first document of a source to settings. A source without documents clears all of
them. -/
def applyDocument? (config : Config) (source : Bytes) : Option Config :=
  (Yaml.values? source).bind fun values =>
    match values with
    | [] => some Config.blank
    | first :: _ => applyMap? setters config first

end Config
end ExprCompiler
