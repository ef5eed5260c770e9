import ExprCompiler.Yaml.Node

/-!
Reading the trees of documents. The entries of a map, like the items of a list, stand in one
column, and what belongs to one of them stands further right; in brackets, commas divide them. A
key may come only once in a map.
-/

namespace ExprCompiler.Yaml

/-- An entry of a map while it is read, with the text of its key if that may come only once. -/
structure Pair where
  text : Option Bytes
  key : Node
  value : Node

namespace Pair

def isDistinct : List Bytes → Bool
  | [] => true
  | first :: rest => !rest.contains first && isDistinct rest

def toMap? (pairs : List Pair) : Option Node :=
  if isDistinct (pairs.filterMap Pair.text) then
    some (.map (pairs.map fun pair => (pair.key, pair.value)))
  else none

end Pair

namespace Phrase

def isMapPart (phrase : Phrase) : Bool :=
  phrase.isEntryStart || phrase.isMark .mapStart || phrase.isMark .mapEnd

def endsFlowEntry (phrase : Phrase) : Bool := phrase.isMark .mapEnd || phrase.isMark .comma

def mayFollow (flow : Bool) (column : Nat) (phrase : Phrase) : Bool :=
  phrase.column ≤ column || (flow && (phrase.isMark .comma || phrase.isMark .listEnd))

def nextColumn (phrases : List Phrase) : Nat := (phrases.head?.map Phrase.column).getD 0

/-- Whether an anchor is followed by a tag on another line that stands too far left. -/
def isSplitAnchor (owner : Place) (phrase : Phrase) (rest : List Phrase) : Bool :=
  rest.head?.any fun next =>
    next.first.isTag && !next.isEntryStart && next.line != phrase.line &&
      next.column ≤ owner.column

end Phrase

/-- What a key or list item in a place has for a value, without reading it. -/
inductive Outlook where
  | empty
  /-- An anchor without a value. -/
  | named (name : Bytes)
  | present
  | refused

def outlook (owner : Place) (isSibling : Phrase → Bool) : List Phrase → Outlook
  | [] => .empty
  | phrase :: rest =>
      if phrase.column = owner.column && isSibling phrase then .empty
      else
        match phrase with
        | .anchorName _ name =>
            let sameLine := phrase.line == owner.line
            let sibling := rest.head?.any fun next =>
              next.column == owner.column && isSibling next
            if sameLine && sibling then .named name
            else if phrase.column ≤ owner.column then .refused
            else if sameLine && Phrase.nextColumn rest < owner.column then .named name
            else if phrase.isSplitAnchor owner rest then .refused
            else .present
        | _ =>
            if phrase.column ≤ owner.column && phrase.first.isTag then .refused
            else if phrase.column < owner.column then .empty
            else .present

mutual

def node? : Nat → Bool → List Phrase → Option (Node × List Phrase)
  | 0, _, _ => none
  | _ + 1, _, [] => none
  | fuel + 1, flow, phrase :: rest =>
      if phrase.isEntryStart then
        (pairs? fuel flow phrase.column (phrase :: rest)).bind fun (pairs, after) =>
          (Pair.toMap? pairs).map fun result => (result, after)
      else
        match phrase with
        | .anchorName _ name =>
            match node? fuel flow rest with
            | some (.anchored .., _) => none
            | some (value, after) => some (.anchored name value, after)
            | none => none
        | .token self =>
            match self.lexeme with
            | .tag name =>
                (tagValue? fuel flow name rest).map fun (value, after) =>
                  (.tagged name value, after)
            | .mark .mapStart =>
                (flowPairs? fuel true rest).bind fun (pairs, after) =>
                  (Pair.toMap? pairs).map fun result => (result, after)
            | .mark .listStart =>
                (flowItems? fuel true rest).map fun (items, after) => (.list items, after)
            | .mark .hyphen =>
                (items? fuel flow self.place (phrase :: rest)).map fun (items, after) =>
                  (.list items, after)
            | _ => (Node.ofPhrase? phrase).map fun value => (value, rest)
        | _ => (Node.ofPhrase? phrase).map fun value => (value, rest)

def tagValue? : Nat → Bool → Bytes → List Phrase → Option (Node × List Phrase)
  | 0, _, _, _ => none
  | _ + 1, _, _, [] => some (.null, [])
  | fuel + 1, flow, tag, phrase :: rest =>
      if isOneOfTags ["!!map", "!!set"] tag then
        if phrase.isEntryStart || phrase.isMark .mapStart then node? fuel flow (phrase :: rest)
        else none
      else if isOneOfTags scalarTags tag then
        match phrase with
        | .block .. => none
        | _ =>
            if phrase.isMark .comma then some (.scalar (Node.tagDefault tag), phrase :: rest)
            else (Node.ofPhrase? phrase).map fun value => (value, rest)
      else if isOneOfTags ["!!seq", "!!omap"] tag then
        if phrase.isMark .listStart || phrase.isMark .hyphen then node? fuel flow (phrase :: rest)
        else some (.list [], phrase :: rest)
      else node? fuel flow (phrase :: rest)

def pairs? : Nat → Bool → Nat → List Phrase → Option (List Pair × List Phrase)
  | 0, _, _, _ => none
  | _ + 1, _, _, [] => none
  | fuel + 1, flow, column, phrase :: rest =>
      match pair? fuel flow phrase rest with
      | none => none
      | some (pair, []) => some ([pair], [])
      | some (pair, next :: others) =>
          if next.column != column || (flow && next.isMark .listEnd) then
            some ([pair], next :: others)
          else if next.isMark .mapEnd then some ([pair], others)
          else if next.isEntryStart then
            (pairs? fuel flow column (next :: others)).map fun (pairs, after) =>
              (pair :: pairs, after)
          else none

def pair? : Nat → Bool → Phrase → List Phrase → Option (Pair × List Phrase)
  | 0, _, _, _ => none
  | fuel + 1, flow, phrase, rest =>
      match phrase with
      | .entry start value =>
          match start.keyNode? flow, Node.ofPhrase? value with
          | some key, some content =>
              if rest.head?.all fun next => next.mayFollow flow phrase.column then
                some (⟨some start.keyText, key, content⟩, rest)
              else none
          | _, _ => none
      | _ =>
          let clashes := rest.head?.any fun next =>
            next.line == phrase.line &&
              (next.isMark .hyphen || (next.isEntryStart && next.column != phrase.column))
          match clashes, phrase.keyNode? flow with
          | false, some key =>
              (value? fuel flow phrase.first.place Phrase.isMapPart rest).map
                fun (value, after) => (⟨some phrase.keyText, key, value⟩, after)
          | _, _ => none

def value? : Nat → Bool → Place → (Phrase → Bool) → List Phrase → Option (Node × List Phrase)
  | 0, _, _, _, _ => none
  | fuel + 1, flow, owner, isSibling, phrases =>
      match outlook owner isSibling phrases with
      | .empty => some (.null, phrases)
      | .named name => some (.anchored name .null, phrases.drop 1)
      | .present => node? fuel flow phrases
      | .refused => none

def items? : Nat → Bool → Place → List Phrase → Option (List Node × List Phrase)
  | 0, _, _, _ => none
  | _ + 1, _, _, [] => some ([], [])
  | fuel + 1, flow, start, phrase :: rest =>
      if phrase.isMark .hyphen && phrase.column == start.column then
        match value? fuel flow start (Phrase.isMark .hyphen) rest with
        | none => none
        | some (item, after) =>
            (items? fuel flow start after).map fun (items, last) => (item :: items, last)
      else some ([], phrase :: rest)

/-- Reads entries up to the closing brace; a comma stands before all but the first. -/
def flowPairs? : Nat → Bool → List Phrase → Option (List Pair × List Phrase)
  | 0, _, _ => none
  | _ + 1, _, [] => none
  | fuel + 1, isFirst, phrase :: rest =>
      let isComma := phrase.isMark .comma
      if phrase.isMark .mapEnd then some ([], rest)
      else if !isComma && !isFirst then none
      else
        match if isComma then rest else phrase :: rest with
        | [] => none
        | start :: others =>
            if start.isMark .mapEnd then some ([], others)
            else
              match flowPair? fuel start others with
              | none => none
              | some (pair, after) =>
                  (flowPairs? fuel false after).map fun (pairs, last) => (pair :: pairs, last)

def flowPair? : Nat → Phrase → List Phrase → Option (Pair × List Phrase)
  | 0, _, _ => none
  | fuel + 1, phrase, rest =>
      let ends := rest.head?.any Phrase.endsFlowEntry
      match phrase with
      | .entry start value =>
          match start.keyNode? true, Node.ofPhrase? value with
          | some key, some content => some (⟨some start.keyText, key, content⟩, rest)
          | _, _ => none
      | _ =>
          if phrase.isKey then
            match phrase.keyNode? true, ends with
            | some key, true => some (⟨some phrase.keyText, key, .null⟩, rest)
            | some key, false =>
                (node? fuel true rest).map fun (value, after) =>
                  (⟨some phrase.keyText, key, value⟩, after)
            | none, _ => none
          else if ends then
            (Node.ofPhrase? phrase).map fun key => (⟨none, key, .null⟩, rest)
          else none

def flowItems? : Nat → Bool → List Phrase → Option (List Node × List Phrase)
  | 0, _, _ => none
  | _ + 1, _, [] => none
  | fuel + 1, isFirst, phrase :: rest =>
      let isComma := phrase.isMark .comma
      if phrase.isMark .listEnd then some ([], rest)
      else if isComma == isFirst then none
      else
        match if isComma then rest else phrase :: rest with
        | [] => none
        | start :: others =>
            if start.isMark .listEnd then some ([], others)
            else
              match node? fuel true (start :: others) with
              | none => none
              | some (item, after) =>
                  (flowItems? fuel false after).map fun (items, last) => (item :: items, last)

end

/-! Documents. -/

def isDirective (name : Bytes) (words : List Bytes) : Bool :=
  match words with
  | [] => true
  | first :: rest =>
      if name = utf8 "YAML" then
        rest.isEmpty && ["1.0", "1.1", "1.2", "1.3"].any fun version => utf8 version == first
      else if name = utf8 "TAG" then rest.length == 1
      else true

def closed (before : List Phrase) : List (List Phrase) :=
  if before.isEmpty then [] else [before.reverse]

/-- Splits phrases into documents, without the marks between them. `before` holds the phrases
passed of this document, last first. Of two marks in a row the second ends the text. -/
def splitDocuments? (before : List Phrase) : List Phrase → Option (List (List Phrase))
  | [] => some [before.reverse]
  | phrase :: rest =>
      if phrase.isMark .documentStart then
        match rest with
        | [] => some (closed before)
        | next :: _ =>
            if next.isMark .documentStart then some (closed before)
            else if next.line = phrase.line && (next.isEntryStart || next.isMark .hyphen) then none
            else (splitDocuments? [] rest).map (closed before ++ ·)
      else if phrase.isMark .documentEnd then
        match rest with
        | [] => some (closed before)
        | next :: _ =>
            if next.isScalar || next.isAnchorName then none
            else (splitDocuments? [] rest).map (closed before ++ ·)
      else splitDocuments? (phrase :: before) rest

/-- Reads a document, which may hold nothing. Every call takes a phrase or hands it to one of three
others. -/
def document? : List Phrase → Option (Option Node)
  | [] => some none
  | [.directive _ name words] => if isDirective name words then some none else none
  | phrases =>
      match node? (4 * phrases.length + 4) false phrases with
      | some (node, []) => some (some node)
      | _ => none

def documents? (source : Bytes) : Option (List Node) := do
  let tokens ← tokens? (decode source)
  let phrases ← Phrase.ofTokens? tokens
  let bodies ← splitDocuments? [] phrases
  let documents ← bodies.mapM document?
  return documents.filterMap id

end ExprCompiler.Yaml
