import ExprCompiler.Table
import ExprCompiler.Text.Base64
import ExprCompiler.Text.LowerCase
import ExprCompiler.Yaml.Read

/-!
What the tree of a document stands for: references are replaced by what they name, tags are
applied, and the entries that a map merges are put into it.
-/

namespace ExprCompiler.Yaml

inductive Value where
  | null
  /-- A null with an anchor or a tag. -/
  | hollow
  | bool (flag : Bool)
  | int (value : Int)
  /-- An integer that a tag made of something. -/
  | madeInt (value : Int)
  | float (value : Double)
  | text (content : Bytes)
  | binary (content : Bytes)
  | time
  | list (items : List Value)
  | map (entries : List (Value × Value))

namespace Value

def ofScalar : Scalar → Value
  | .null => null
  | .bool flag => bool flag
  | .int value => int value
  | .float value => float value
  | .text content => text content

def marked : Value → Value
  | null => hollow
  | other => other

def isNull : Value → Bool
  | null => true
  | hollow => true
  | _ => false

def written? : Value → Option Bytes
  | bool flag => some (Scalar.bool flag).written
  | int value => some (Text.decimal value)
  | madeInt value => some (Text.decimal value)
  | float value => some value.text
  | text content => some content
  | binary content => some content
  | _ => none

/-! Tags. -/

/-- The integer of 64 bits next to a row of digits with a sign; zero if it is none. -/
def nearestInt (literal : Bytes) : Int :=
  let (negative, digits) := Text.splitSign literal
  let size := (digitsValue? 10 digits).getD 0
  if negative then -(min size (Nat.pow 2 63) : Int) else (min size (Nat.pow 2 63 - 1) : Int)

def toFloat : Value → Value
  | int value => float (.ofInt value)
  | madeInt value => float (.ofInt value)
  | float value => float value
  | text content => float ((Double.read? content).getD (.ofInt 0))
  | _ => madeInt 0

def wordBool? (word : Bytes) : Option Bool :=
  let lowered := Text.lowerCase word
  if ["1", "t", "true", "yes"].any fun name => utf8 name == lowered then some true
  else if ["0", "f", "false", "no"].any fun name => utf8 name == lowered then some false
  else none

def applyTag? (tag : Bytes) (value : Value) : Option Value :=
  if tag = utf8 "!!null" then some hollow
  else if tag = utf8 "!!timestamp" then some time
  else if tag = utf8 "!!str" then
    if value.isNull then some (text []) else value.written?.map text
  else if tag = utf8 "!!int" then
    if value.isNull then some (madeInt 0)
    else value.written?.map fun literal => madeInt (nearestInt literal)
  else if tag = utf8 "!!float" then some value.toFloat
  else if tag = utf8 "!!bool" then value.written?.bind fun word => (wordBool? word).map bool
  else if tag = utf8 "!!binary" then
    match value with
    | text content => some (binary (Text.decodeBase64 content))
    | _ => none
  else some value.marked

/-! Merged maps. -/

def isText : Value → Bool
  | text _ => true
  | _ => false

/-- The entries of maps that are merged into one; there are none unless all keys are texts. -/
def mergedEntries (entries : List (Value × Value)) : List (Value × Value) :=
  if entries.all fun entry => entry.1.isText then entries else []

def entries? : Value → Option (List (Value × Value))
  | map entries => some entries
  | _ => none

/-- The entries that a merged value adds: those of a map, or of all maps of a list. -/
def merged? : Value → Option (List (Value × Value))
  | map entries => some (mergedEntries entries)
  | list items => (items.mapM entries?).map fun maps => mergedEntries maps.flatten
  | _ => none

end Value

/-! References. -/

mutual

/-- The value of a node, given the values of the anchors before it, and those of the anchors up to
its end. Inside its own value an anchor stands for null. -/
def resolve? (anchors : Table Value) : Node → Option (Value × Table Value)
  | .scalar value => some (Value.ofScalar value, anchors)
  | .reference name => (Table.find? name anchors).map fun value => (value, anchors)
  | .anchored name inner =>
      (resolve? (Table.set name .null anchors) inner).map fun (value, after) =>
        (value.marked, Table.set name value after)
  | .tagged tag inner =>
      (resolve? anchors inner).bind fun (value, after) =>
        (value.applyTag? tag).map fun result => (result, after)
  | .list items =>
      (resolveItems? anchors items).map fun (values, after) => (.list values, after)
  | .map entries =>
      (resolveEntries? anchors entries).map fun (values, after) => (.map values, after)
  | .mergeKey => none

def resolveItems? (anchors : Table Value) : List Node → Option (List Value × Table Value)
  | [] => some ([], anchors)
  | item :: rest =>
      match resolve? anchors item with
      | none => none
      | some (value, between) =>
          (resolveItems? between rest).map fun (values, after) => (value :: values, after)

def resolveEntries? (anchors : Table Value) :
    List (Node × Node) → Option (List (Value × Value) × Table Value)
  | [] => some ([], anchors)
  | (key, content) :: rest =>
      match resolveKey? anchors key with
      | none => none
      | some (name, middle) =>
          match resolve? middle content with
          | none => none
          | some (value, between) =>
              match name.elim value.merged? fun name => some [(name, value)] with
              | none => none
              | some added =>
                  (resolveEntries? between rest).map fun (entries, after) =>
                    (added ++ entries, after)

/-- The value of a key; the key that merges has none. -/
def resolveKey? (anchors : Table Value) : Node → Option (Option Value × Table Value)
  | .mergeKey => some (none, anchors)
  | .tagged tag .mergeKey => if tag = utf8 "!!merge" then some (none, anchors) else none
  | key => (resolve? anchors key).map fun (value, after) => (some value, after)

end

/-- The values of all documents of a source. One without a value is dropped, unless it is a null
that is written. -/
def values? (source : Bytes) : Option (List Value) := do
  let nodes ← documents? source
  let values ← nodes.mapM fun node => (resolve? [] node).map Prod.fst
  return values.filter fun value =>
    match value with
    | .hollow => false
    | _ => true

end ExprCompiler.Yaml
