import ExprCompiler.Yaml.Token.Block

/-!
Where the reading of tokens stands. Plain characters gather in a draft until something ends it. The
column of the last key, list item or other mark that opens a level decides whether a new line goes
on with the draft or ends it.
-/

namespace ExprCompiler.Yaml

/-- Whether a line starts to the right of the last level, and so goes on with it. -/
inductive Shift where
  | keep
  | up
  | down
  deriving DecidableEq, Repr

inductive WordKind where
  | ordinary
  /-- The name of an anchor. -/
  | name
  | directive
  deriving DecidableEq, Repr

structure Cursor where
  /-- The characters that follow. -/
  rest : List Char
  place : Place := {}
  /-- The column of the last level, or zero. -/
  mark : Nat := 0
  /-- The blanks at the start of this line. -/
  indent : Nat := 0
  /-- Whether only blanks were read on this line. -/
  atLineStart : Bool := true
  shift : Shift := .keep
  word : WordKind := .ordinary
  /-- The lists and maps in brackets that are open. -/
  openLists : Nat := 0
  openMaps : Nat := 0
  /-- Where a draft of several lines starts. -/
  draftPlace : Option Place := none
  /-- Plain characters that belong to no token yet, last first. -/
  draft : List Char := []
  /-- All characters since the last token, last first. -/
  spelling : List Char := []
  block : Option Block := none
  /-- The tokens so far, last first. -/
  tokens : List Token := []
  deriving DecidableEq, Repr

namespace Cursor

def hasDraft (cursor : Cursor) : Bool := !cursor.draft.isEmpty

def inFlow (cursor : Cursor) : Bool := 0 < cursor.openLists || 0 < cursor.openMaps

def skip (cursor : Cursor) (count : Nat) : Cursor :=
  { cursor with rest := cursor.rest.drop count }

def shiftColumn (cursor : Cursor) (count : Nat) : Cursor :=
  { cursor with place := { cursor.place with column := cursor.place.column + count } }

def forward (cursor : Cursor) (count : Nat) : Cursor := (cursor.skip count).shiftColumn count

def nextLine (cursor : Cursor) : Cursor :=
  { cursor.skip 1 with
    place := ⟨cursor.place.line + 1, 1⟩
    indent := 0
    atLineStart := true
    word := .ordinary }

def spell (cursor : Cursor) (char : Char) : Cursor :=
  { cursor with spelling := char :: cursor.spelling }

/-- Adds to the draft; blanks in front of it are no part of it. -/
def addDraft (cursor : Cursor) (char : Char) : Cursor :=
  if isGap char && !cursor.hasDraft then cursor else { cursor with draft := char :: cursor.draft }

/-- The draft up to its last character that is neither a blank nor a folded line break. -/
def solidDraft (cursor : Cursor) : List Char :=
  cursor.draft.dropWhile fun char => isGap char || isBreak char

def letter (cursor : Cursor) (char : Char) : Cursor :=
  ((cursor.addDraft char).spell char).forward 1

def push (cursor : Cursor) (lexeme : Lexeme) (place : Place) : Cursor :=
  let token : Token := ⟨lexeme, place, cursor.spelling.reverse⟩
  { cursor with tokens := token :: cursor.tokens }

def clear (cursor : Cursor) : Cursor :=
  { cursor with draft := [], spelling := [], block := none }

def last? (cursor : Cursor) : Option Token := cursor.tokens.head?

/-- Whether a tag without a meaning of its own stands before; a plain scalar after it is a text. -/
def afterOwnTag (cursor : Cursor) : Bool :=
  match cursor.tokens with
  | ⟨.tag name, _, _⟩ :: _ => !isOneOfTags knownTags name
  | _ => false

def plainLexeme (cursor : Cursor) : Lexeme :=
  let content := encode cursor.solidDraft.reverse
  .scalar .plain content (if cursor.afterOwnTag then .text content else .ofPlain content)

def textLexeme (style : Style) (chars : List Char) : Lexeme :=
  .scalar style (encode chars) (.text (encode chars))

def draftStart (cursor : Cursor) : Place :=
  cursor.draftPlace.getD
    { cursor.place with column := cursor.place.column - cursor.draft.length }

def flush (cursor : Cursor) : Cursor :=
  let place := cursor.draftStart
  let settled := { cursor with draftPlace := none }
  match cursor.block with
  | some block =>
      if block.content = [] then settled
      else
        { settled.push (textLexeme .block block.content) place with
          draft := [], spelling := [], block := some { block with settled := [], loose := 0 } }
  | none =>
      if cursor.hasDraft then
        { settled.push cursor.plainLexeme place with draft := [], spelling := [] }
      else settled

def pushMark (cursor : Cursor) (kind : Mark) (count : Nat) : Cursor :=
  let ended := cursor.flush
  ((ended.push (.mark kind) ended.place).forward count).clear

def notice (cursor : Cursor) (char : Char) : Cursor :=
  if !cursor.atLineStart then { cursor with shift := .keep }
  else if isBreak char || char == '\t' then cursor
  else if char = ' ' then { cursor with indent := cursor.indent + 1 }
  else
    { cursor with
      atLineStart := false
      shift :=
        if cursor.mark = 0 then cursor.shift
        else if cursor.mark < cursor.place.column then .up
        else .down }

end Cursor
end ExprCompiler.Yaml
