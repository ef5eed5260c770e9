import ExprCompiler.Text.Blank
import ExprCompiler.Text.Integer
import ExprCompiler.Text.Quoted

/-!
JSON values and their texts. Numbers are kept as they are written; members of an object keep their
order.
-/

namespace ExprCompiler

inductive Json where
  | null
  | bool (flag : Bool)
  | number (literal : Bytes)
  | string (content : Bytes)
  | list (items : List Json)
  | object (members : List (Bytes × Json))

namespace Json

def int (value : Int) : Json := number (Text.decimal value)

def strings (items : List Bytes) : Json := list (items.map string)

def member (name : String) (value : Json) : Bytes × Json := (utf8 name, value)

/-- Characters that a page might take for markup. -/
def isMarkup (code : Nat) : Bool := code == 0x3c || code == 0x3e || code == 0x26

/-- A character of a string: quotes, control characters and the two line separators are escaped,
and markup too if asked for. -/
def escapeGlyph (markup : Bool) (glyph : Text.Glyph) : Bytes :=
  let code := glyph.code
  let unicode := Text.backslash :: 0x75 :: Text.hexFixed 4 code
  if glyph.isInvalid then unicode
  else if code = 0x22 || code = 0x5c then Text.backslash :: glyph.bytes
  else if code = 10 then [Text.backslash, 0x6e]
  else if code = 13 then [Text.backslash, 0x72]
  else if code = 9 then [Text.backslash, 0x74]
  else if code = 8 then [Text.backslash, 0x62]
  else if code = 12 then [Text.backslash, 0x66]
  else if code < 0x20 || code = 0x2028 || code = 0x2029 then unicode
  else if markup && isMarkup code then unicode
  else glyph.bytes

def quote (markup : Bool) (content : Bytes) : Bytes :=
  Text.doubleQuote ::
    ((Text.glyphs content).flatMap (escapeGlyph markup) ++ [Text.doubleQuote])

mutual

def compact (markup : Bool) : Json → Bytes
  | null => utf8 "null"
  | bool true => utf8 "true"
  | bool false => utf8 "false"
  | number literal => literal
  | string content => quote markup content
  | list items => utf8 "[" ++ compactItems markup items ++ utf8 "]"
  | object members => [0x7b] ++ compactMembers markup members ++ [0x7d]

def compactItems (markup : Bool) : List Json → Bytes
  | [] => []
  | [item] => item.compact markup
  | item :: rest => item.compact markup ++ utf8 "," ++ compactItems markup rest

def compactMembers (markup : Bool) : List (Bytes × Json) → Bytes
  | [] => []
  | [(name, value)] => quote markup name ++ utf8 ":" ++ value.compact markup
  | (name, value) :: rest =>
      quote markup name ++ utf8 ":" ++ value.compact markup ++ utf8 "," ++
        compactMembers markup rest

end

def margin (depth : Nat) : Bytes := List.replicate (2 * depth) 0x20

mutual

def pretty (depth : Nat) : Json → Bytes
  | list [] => utf8 "[]"
  | list (first :: rest) =>
      utf8 "[\n" ++ prettyItems (depth + 1) (first :: rest) ++ [10] ++ margin depth ++ utf8 "]"
  | object [] => [0x7b, 0x7d]
  | object (first :: rest) =>
      [0x7b, 10] ++ prettyMembers (depth + 1) (first :: rest) ++ [10] ++ margin depth ++ [0x7d]
  | null => utf8 "null"
  | bool true => utf8 "true"
  | bool false => utf8 "false"
  | number literal => literal
  | string content => quote true content

def prettyItems (depth : Nat) : List Json → Bytes
  | [] => []
  | [item] => margin depth ++ item.pretty depth
  | item :: rest =>
      margin depth ++ item.pretty depth ++ utf8 ",\n" ++ prettyItems depth rest

def prettyMembers (depth : Nat) : List (Bytes × Json) → Bytes
  | [] => []
  | [(name, value)] => margin depth ++ quote true name ++ utf8 ": " ++ value.pretty depth
  | (name, value) :: rest =>
      margin depth ++ quote true name ++ utf8 ": " ++ value.pretty depth ++ utf8 ",\n" ++
        prettyMembers depth rest

end

end Json
end ExprCompiler
