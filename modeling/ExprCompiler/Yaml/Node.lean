import ExprCompiler.Yaml.Phrase

/-!
The tree of a document as it is written: scalars, lists and maps with their anchors, tags and
references. A phrase that stands for a scalar is a node on its own.
-/

namespace ExprCompiler.Yaml

inductive Node where
  | scalar (value : Scalar)
  | reference (name : Bytes)
  | anchored (name : Bytes) (value : Node)
  | tagged (tag : Bytes) (value : Node)
  | list (items : List Node)
  | map (entries : List (Node × Node))
  /-- The key whose value is a map with more entries. -/
  | mergeKey

namespace Node

def null : Node := scalar .null

def tagDefault (tag : Bytes) : Scalar :=
  if isOneOfTags ["!!int", "!!float"] tag then .int 0
  else if tag = utf8 "!!bool" then .bool false
  else if tag = utf8 "!!null" then .null
  else .text []

def ofToken? (token : Token) : Option Node :=
  match token.lexeme with
  | .scalar _ _ value => some (scalar value)
  | .mark .merge => some mergeKey
  | .tag name =>
      if isOneOfTags scalarTags name then some (tagged name (scalar (tagDefault name))) else none
  | _ => none

def ofPhrase? : Phrase → Option Node
  | .token self => ofToken? self
  | .block _ text => some (scalar (.text text))
  | .anchored _ name value => (ofPhrase? value).map (anchored name)
  | .reference _ name => some (reference name)
  | .tagged tag value =>
      match tag.lexeme with
      | .tag name => (ofPhrase? value).map (tagged name)
      | _ => none
  | _ => none

end Node

/-! Keys. -/

def isSpacing (char : Char) : Bool := isGap char || isBreak char

def countBreaks : List Char → Nat
  | [] => 0
  | '\r' :: '\n' :: rest => countBreaks rest + 1
  | char :: rest => countBreaks rest + if isBreak char then 1 else 0

namespace Token

def isText (token : Token) : Bool :=
  match token.lexeme with
  | .scalar _ _ (.text _) => true
  | _ => false

/-- Whether a key stands on one line. In brackets only the line break between a plain key and its
colon counts. -/
def fitsLine (flow : Bool) (token colon : Token) : Bool :=
  let spelled := token.spelling.dropWhile isSpacing
  if !token.isText then true
  else if flow then
    token.isQuoted ||
      token.place.line + countBreaks ((spelled.reverse.dropWhile isSpacing).reverse) ==
        colon.place.line
  else !spelled.any isBreak

end Token

namespace Phrase

/-- The text by which a key is told from others, before it is understood. -/
def keyText : Phrase → Bytes
  | token self =>
      match self.lexeme with
      | .scalar _ content _ => content
      | .mark .merge => utf8 "<<"
      | _ => []
  | block _ text => text
  | anchored _ _ value => value.keyText
  | tagged _ value => value.keyText
  | asked _ content => content.keyText
  | key content _ => content.keyText
  | _ => []

def keyNode? (flow : Bool) : Phrase → Option Node
  | asked _ content => Node.ofPhrase? content
  | key (asked _ content) _ => Node.ofPhrase? content
  | key (token self) colon => if self.fitsLine flow colon then Node.ofToken? self else none
  | key content _ => Node.ofPhrase? content
  | _ => none

end Phrase
end ExprCompiler.Yaml
