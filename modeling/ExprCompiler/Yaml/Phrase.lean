import ExprCompiler.Yaml.Token.Scan

/-!
Tokens that belong together whatever stands around them: an anchor with its name, a tag with a
scalar on the same line, a key with its colon, a key with a scalar on the same line. They are found
one kind after the other; those found later are made of those found before.
-/

namespace ExprCompiler.Yaml

inductive Phrase where
  | token (token : Token)
  /-- A block scalar; one that the text ends before has no text. -/
  | block (header : Token) (text : Bytes)
  | anchorName (start : Token) (name : Bytes)
  | anchored (start : Token) (name : Bytes) (value : Phrase)
  | reference (start : Token) (name : Bytes)
  | tagged (tag : Token) (value : Phrase)
  /-- A key after a question mark. -/
  | asked (start : Token) (key : Phrase)
  | key (content : Phrase) (colon : Token)
  | entry (key : Phrase) (value : Phrase)
  | directive (start : Token) (name : Bytes) (values : List Bytes)

namespace Phrase

def first : Phrase → Token
  | token self => self
  | block header _ => header
  | anchorName start _ => start
  | anchored start _ _ => start
  | reference start _ => start
  | tagged tag _ => tag
  | asked start _ => start
  | key content _ => content.first
  | entry start _ => start.first
  | directive start _ _ => start

def line (phrase : Phrase) : Nat := phrase.first.place.line

def column (phrase : Phrase) : Nat := phrase.first.place.column

def isMark (kind : Mark) : Phrase → Bool
  | token self => self.isMark kind
  | _ => false

def startsWith (kind : Mark) (phrase : Phrase) : Bool := phrase.first.isMark kind

def isScalar : Phrase → Bool
  | token self => self.isScalar
  | block .. => true
  | anchored .. => true
  | reference .. => true
  | _ => false

def isAnchorName : Phrase → Bool
  | anchorName .. => true
  | _ => false

def isEntryStart : Phrase → Bool
  | asked .. => true
  | key .. => true
  | entry .. => true
  | _ => false

def isKey : Phrase → Bool
  | asked .. => true
  | key .. => true
  | _ => false

/-! Block scalars. -/

def joinBlocks? : List Token → Option (List Phrase)
  | [] => some []
  | start :: rest =>
      if start.lexeme = .header then
        match rest with
        | [] => some [block start []]
        | text :: others =>
            text.content?.bind fun content =>
              (joinBlocks? others).map fun phrases => block start content :: phrases
      else (joinBlocks? rest).map fun phrases => token start :: phrases

/-! Anchors and references. -/

def name? : Phrase → Option Bytes
  | token self => self.content?
  | _ => none

/-- What stands after an anchor and its name: a scalar on the same line belongs to them. -/
def anchor? (start : Token) (name : Bytes) (value : Phrase) : Option (Phrase × List Phrase) :=
  let sameLine := start.place.line == value.line
  if sameLine && (value.isMark .hyphen || value.isMark .anchor || value.isMark .reference) then none
  else if sameLine && value.isScalar then some (anchored start name value, [])
  else some (anchorName start name, [value])

/-- Joins anchors and references with their names. An anchor is followed by its name and by
something to be named. -/
def joinAnchors? (phrases : List Phrase) : Option (List Phrase) :=
  match phrases with
  | [] => some []
  | start :: rest =>
      if start.isMark .anchor then
        match rest with
        | name :: value :: others =>
            match name.name?.bind fun name => anchor? start.first name value with
            | some (joined, []) => (joinAnchors? others).map (joined :: ·)
            | some (joined, _) => (joinAnchors? (value :: others)).map (joined :: ·)
            | none => none
        | _ => none
      else if start.isMark .reference then
        match rest with
        | name :: others =>
            name.name?.bind fun name => (joinAnchors? others).map (reference start.first name :: ·)
        | [] => none
      else (joinAnchors? rest).map (start :: ·)
termination_by phrases.length

/-! Tags. -/

/-- Whether a tag and the phrase after it on the same line belong together; `none` if they
contradict each other. -/
def tagTakes? (tag : Bytes) (value : Phrase) : Option Bool :=
  if (Text.afterWord? (utf8 "!!") tag).isSome then
    if isOneOfTags scalarTags tag then some value.isScalar
    else if tag = utf8 "!!merge" then if value.isMark .merge then some true else none
    else some false
  else
    some (!(value.isMark .mapStart || value.isMark .mapEnd || value.isMark .listStart ||
      value.isMark .hyphen))

def joinTags? : List Phrase → Option (List Phrase)
  | [] => some []
  | [last] => some [last]
  | start :: value :: rest =>
      match start.first.lexeme, value.isAnchorName || start.line != value.line with
      | .tag name, false =>
          match tagTakes? name value with
          | some true => (joinTags? rest).map (tagged start.first value :: ·)
          | some false => (joinTags? (value :: rest)).map (start :: ·)
          | none => none
      | _, _ => (joinTags? (value :: rest)).map (start :: ·)

def joinAnchoredTags? : List Phrase → Option (List Phrase)
  | [] => some []
  | [last] => if last.isAnchorName then none else some [last]
  | start :: value :: rest =>
      match start, value with
      | anchorName mark name, tagged tag inner =>
          if start.line = value.line then
            (joinAnchoredTags? rest).map (anchored mark name (tagged tag inner) :: ·)
          else (joinAnchoredTags? (value :: rest)).map (start :: ·)
      | _, _ => (joinAnchoredTags? (value :: rest)).map (start :: ·)

/-! Keys. -/

def joinAsked? : List Phrase → Option (List Phrase)
  | [] => some []
  | start :: rest =>
      if start.isMark .question then
        match rest with
        | content :: others => (joinAsked? others).map (asked start.first content :: ·)
        | [] => none
      else (joinAsked? rest).map (start :: ·)

/-- Marks after which no colon may stand. -/
def noKeys : List Mark :=
  [.directive, .documentStart, .documentEnd, .comma, .mapStart, .mapEnd, .listStart, .listEnd,
    .colon]

def canBeKey : Phrase → Bool
  | key .. => false
  | phrase => noKeys.all fun kind => !phrase.startsWith kind

/-- Joins keys with the colons after them. `before` holds the phrases passed, last first. -/
def joinKeys? (before : List Phrase) : List Phrase → Option (List Phrase)
  | [] => some before.reverse
  | phrase :: rest =>
      if phrase.isMark .colon then
        match before with
        | content :: earlier =>
            if content.canBeKey then joinKeys? (key content phrase.first :: earlier) rest else none
        | [] => none
      else joinKeys? (phrase :: before) rest

def isInlineValue : Phrase → Bool
  | tagged .. => true
  | phrase => phrase.isScalar

def joinEntries : List Phrase → List Phrase
  | [] => []
  | [last] => [last]
  | start :: value :: rest =>
      if start.isKey && start.line == value.line && value.isInlineValue then
        entry start value :: joinEntries rest
      else start :: joinEntries (value :: rest)

/-! Directives. -/

def wordText : Phrase → Bytes
  | token self =>
      match self.lexeme with
      | .scalar _ content _ => content
      | .tag name => name
      | _ => []
  | _ => []

def isOnLine (line : Nat) (phrase : Phrase) : Bool := phrase.line == line

/-- Joins directives with the words on their lines. A document has to start after a directive. -/
def joinDirectives? (phrases : List Phrase) : Option (List Phrase) :=
  match phrases with
  | [] => some []
  | start :: rest =>
      if start.isMark .directive then
        match rest with
        | [] => none
        | name :: others =>
            let after := others.dropWhile (isOnLine start.line)
            if after.head?.any fun phrase => phrase.isMark .documentStart then
              (joinDirectives? after).map
                (directive start.first name.wordText
                  ((others.takeWhile (isOnLine start.line)).map wordText) :: ·)
            else none
      else (joinDirectives? rest).map (start :: ·)
termination_by phrases.length
decreasing_by
  · have shorter : (others.dropWhile (isOnLine start.line)).length ≤ others.length :=
      (List.dropWhile_suffix (isOnLine start.line)).length_le
    simp only [List.length_cons]
    omega
  · simp

def ofTokens? (tokens : List Token) : Option (List Phrase) := do
  let blocks ← joinBlocks? tokens
  let anchors ← joinAnchors? blocks
  let tags ← joinTags? anchors
  let named ← joinAnchoredTags? tags
  let askedKeys ← joinAsked? named
  let keys ← joinKeys? [] askedKeys
  joinDirectives? (joinEntries keys)

end Phrase
end ExprCompiler.Yaml
