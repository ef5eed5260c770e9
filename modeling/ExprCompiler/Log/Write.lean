import ExprCompiler.Json.Basic
import ExprCompiler.Log.Record

/-!
Log lines. A record is written as one line, either as `key=value` pairs or as a JSON object, and
only if its level reaches the level of the log. What a clock says is passed in as text.
-/

namespace ExprCompiler

inductive LogFormat where
  | text | json
  deriving DecidableEq, Repr

/-- Every name but `json` means plain text. -/
def LogFormat.ofText (name : Bytes) : LogFormat :=
  if Text.foldCase name = utf8 "json" then .json else .text

structure LogSettings where
  level : LogLevel
  format : LogFormat
  deriving DecidableEq, Repr

structure LogTime where
  stamp : Bytes
  /-- An elapsed time as people read it. -/
  elapsed : Bytes
  /-- The same time as a JSON value. -/
  elapsedJson : Bytes
  deriving DecidableEq, Repr

def LogSettings.shows (settings : LogSettings) (record : LogRecord) : Bool :=
  settings.level.rank ≤ record.level.rank

namespace LogRecord

/-- Whether a character of a value would be misread in a line of pairs. -/
def splitsPairs (glyph : Text.Glyph) : Bool :=
  if glyph.code < 0x80 then
    glyph.code < 0x20 || glyph.code == 0x20 || glyph.code == 0x22 || glyph.code == 0x3d
  else
    glyph.code == Text.replacementCode || glyph.isBlank || !Text.isPrintable glyph.code

def pairText (content : Bytes) : Bytes :=
  if content.isEmpty || (Text.glyphs content).any splitsPairs then Text.quote content else content

def pairValue (time : LogTime) : LogValue → Bytes
  | .text content => pairText content
  | .int value => Text.decimal value
  | .bool true => utf8 "true"
  | .bool false => utf8 "false"
  | .elapsed => time.elapsed

def pair (name value : Bytes) : Bytes := name ++ utf8 "=" ++ value

def textLine (time : LogTime) (record : LogRecord) : Bytes :=
  Text.join (utf8 " ")
    ([pair (utf8 "time") time.stamp, pair (utf8 "level") record.level.name,
        pair (utf8 "msg") (pairText record.message)] ++
      record.attributes.map fun entry => pair (pairText entry.1) (pairValue time entry.2))

def jsonValue (time : LogTime) : LogValue → Json
  | .text content => .string content
  | .int value => .int value
  | .bool flag => .bool flag
  | .elapsed => .number time.elapsedJson

def jsonLine (time : LogTime) (record : LogRecord) : Bytes :=
  Json.compact false
    (.object
      ([Json.member "time" (.string time.stamp), Json.member "level" (.string record.level.name),
          Json.member "msg" (.string record.message)] ++
        record.attributes.map fun entry => (entry.1, jsonValue time entry.2)))

end LogRecord

def LogSettings.line (settings : LogSettings) (time : LogTime) (record : LogRecord) : Bytes :=
  if settings.shows record then
    (match settings.format with
      | .text => record.textLine time
      | .json => record.jsonLine time) ++ [10]
  else []

def LogSettings.lines (settings : LogSettings) (time : LogTime) (records : List LogRecord) :
    Bytes :=
  records.flatMap (settings.line time)

end ExprCompiler
