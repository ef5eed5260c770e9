import ExprCompiler.Yaml.Token.Cursor
import ExprCompiler.Yaml.Token.Quoted

/-!
Splitting a text into tokens, character by character. A character that has no meaning where it
stands is part of a plain scalar. Reading fails at a character that can stand nowhere.
-/

namespace ExprCompiler.Yaml.Cursor

/-! Block scalars. -/

/-- Takes the first line of a block scalar, whose last character is lost if no line break ends
it. -/
def blockHeader? (cursor : Cursor) (literal : Bool) : Option Cursor :=
  let after := cursor.rest.drop 1
  let line := after.takeWhile (!isBreak ·)
  let ending := after.dropWhile (!isBreak ·)
  let value := if ending = [] then line.dropLast else line
  let comment := value.idxOf '#'
  let option := (if 0 < comment then value.take comment else value).reverse.dropWhile isGap
  let mark := if cursor.place.column = 1 then 1 else cursor.mark
  (Block.ofHeader? literal mark option.reverse).map fun block =>
    let started := cursor.push .header cursor.place
    let noted :=
      if line.contains '#' then
        started.push .comment { cursor.place with column := cursor.place.column + 1 }
      else started
    let breakLength := if ending.take 2 = ['\r', '\n'] then 2 else 1
    { noted.clear with
      rest := ending.drop (breakLength - 1)
      mark := mark
      shift := .keep
      block := some block }.nextLine

/-- Leaves a block at a line that does not belong to it. A block without text stands for the empty
text, but a block in the first column has to have one. -/
def leaveBlock? (cursor : Cursor) : Option Cursor :=
  match cursor.tokens with
  | ⟨.header, place, _⟩ :: _ =>
      if place.column = 1 then none
      else some { cursor.push (textLexeme .block []) cursor.place with block := none }
  | ⟨.comment, _, _⟩ :: _ =>
      some { cursor.push (textLexeme .block []) cursor.place with block := none }
  | _ => some { cursor with block := none }

def endBlock (cursor : Cursor) (block : Block) : Cursor :=
  (cursor.push (textLexeme .block block.content) cursor.place).clear

/-- Takes a line break of a block, which ends at the end of a document. -/
def blockBreak (cursor : Cursor) (block : Block) (char : Char) : Cursor :=
  let ended := (block.add char).endLine cursor.place.column
  let next := { cursor.nextLine with block := some ended }
  if startsDocumentMark next.rest then next.endBlock ended else next

def blockChar? (cursor : Cursor) (block : Block) (char : Char) : Option Cursor :=
  let column := cursor.place.column
  if (cursor.rest.drop 1).isEmpty then some ((cursor.endBlock (block.add char)).forward 1)
  else if isBreak char then some (cursor.blockBreak block char)
  else if cursor.atLineStart && char = ' ' then
    some { cursor.forward 1 with block := some (block.addIndent column) }
  else if char = '\t' && !block.isBeforeText column then
    some { cursor.forward 1 with block := some (block.add char) }
  else if char = '\t' && cursor.atLineStart then none
  else
    (block.addText? column char).map fun added =>
      { cursor.forward 1 with
        mark := if 1 < added.column then added.column - 1 else cursor.mark
        block := some added }

/-- Takes a character of a block, two for a line break that is spelled with two. -/
def blockStep? (cursor : Cursor) (block : Block) (char : Char) : Option Cursor :=
  match cursor.rest with
  | '\r' :: '\n' :: _ => ((cursor.spell '\r').skip 1 |>.spell '\n').blockChar? block '\n'
  | _ => (cursor.spell char).blockChar? block char

/-- Goes on with a draft as a folded block, at a hyphen in a line that stands deeper. -/
def foldDraft (cursor : Cursor) : Cursor :=
  let column := cursor.place.column
  let block : Block :=
    { literal := false
      chomp := .strip
      column := column
      lineColumn := column
      settled := '-' :: cursor.draft }
  { (cursor.spell '-').forward 1 with draft := [], block := some block }

/-! Marks. -/

def countFront (char : Char) (chars : List Char) : Nat := (chars.takeWhile (· == char)).length

def atDocumentColumn (cursor : Cursor) : Bool := cursor.indent == 0 && cursor.place.column == 1

/-- Whether a character ends a mark of one character, as the end of the text does. -/
def endsMark : List Char → Bool
  | [] => true
  | char :: _ => isGap char || isBreak char

def isDocumentStart (cursor : Cursor) : Bool :=
  cursor.atDocumentColumn && countFront '-' cursor.rest == 3 && endsMark (cursor.rest.drop 3)

def isDocumentEnd (cursor : Cursor) : Bool :=
  cursor.atDocumentColumn && countFront '.' cursor.rest == 3

def isMergeKey (cursor : Cursor) : Bool :=
  countFront '<' cursor.rest == 2 &&
    match (cursor.rest.drop 2).dropWhile (· == ' ') with
    | ':' :: char :: _ => char == ' ' || isBreak char
    | _ => false

def hyphen (cursor : Cursor) : Cursor :=
  if cursor.isDocumentStart then
    { cursor.pushMark .documentStart 3 with mark := 0, indent := 0 }
  else if cursor.hasDraft then
    if cursor.shift = .up then cursor.foldDraft else cursor.letter '-'
  else if endsMark (cursor.rest.drop 1) then
    { cursor.pushMark .hyphen 1 with mark := cursor.place.column }
  else cursor.letter '-'

def mergeKey (cursor : Cursor) : Cursor :=
  { ((cursor.push (.mark .merge) cursor.place).forward 2).clear with mark := cursor.place.column }

def isDelimiter (cursor : Cursor) : Bool :=
  if cursor.word != .ordinary then false
  else if cursor.openMaps = 0 then endsMark (cursor.rest.drop 1)
  else
    (cursor.rest.drop 1).head? != some '/' &&
      !(cursor.last?.any fun token => token.isMark .colon)

def startsWithTab (cursor : Cursor) : Bool :=
  (Block.dropFront ' ' cursor.spelling.reverse).head? == some '\t'

/-- Takes a colon after a key; the key opens a level in its column. -/
def delimiter (cursor : Cursor) : Cursor :=
  let column :=
    if cursor.hasDraft then cursor.draftStart.column
    else
      match cursor.last? with
      | some token => if token.isQuoted then token.place.column else cursor.mark
      | none => cursor.mark
  { cursor.pushMark .colon 1 with mark := column }

def colon? (cursor : Cursor) : Option Cursor :=
  if !cursor.isDelimiter then some (cursor.letter ':')
  else if cursor.startsWithTab then none
  else some cursor.delimiter

/-- Takes a tag, which ends before a blank; one that the text ends with is dropped. -/
def tag? (cursor : Cursor) : Option Cursor :=
  let isEnd (char : Char) : Bool :=
    char == ' ' || isBreak char || char == '\x7b' || char == '\x7d' ||
      (cursor.inFlow && char == ',')
  let name := '!' :: (cursor.rest.drop 1).takeWhile (!isEnd ·)
  match (cursor.rest.drop 1).dropWhile (!isEnd ·) with
  | [] => some (cursor.skip cursor.rest.length).clear
  | char :: rest =>
      let started := cursor.push (.tag (encode name)) cursor.place
      if char = '\x7b' || char = '\x7d' then none
      else if char = ' ' then some ({ started with rest := rest }.shiftColumn name.length).clear
      else some ({ started with rest := char :: rest }.shiftColumn (name.length - 1)).clear

def comment (cursor : Cursor) : Cursor :=
  let ended := cursor.flush
  let noted := ended.push .comment ended.place
  ({ noted with rest := noted.rest.dropWhile (!isBreak ·) }.nextLine).clear

def quoted? (cursor : Cursor) (isSingle : Bool) : Option Cursor :=
  let start : Quotation :=
    { rest := cursor.rest.drop 1
      place := { cursor.place with column := cursor.place.column + 1 }
      spelling := cursor.rest.take 1 ++ cursor.spelling }
  let fuel := cursor.rest.length
  let read := if isSingle then start.single? cursor.mark fuel else start.double? cursor.mark fuel
  read.map fun state =>
    let lexeme := textLexeme .quoted state.found.reverse
    let token : Token := ⟨lexeme, cursor.place, state.spelling.reverse⟩
    let sameLine := state.place.line == cursor.place.line
    { cursor.clear with
      rest := state.rest
      place := state.place
      tokens := token :: cursor.tokens
      atLineStart := cursor.atLineStart || !sameLine
      indent := if sameLine then cursor.indent else 0
      word := if sameLine then cursor.word else .ordinary }

/-! Blanks and line breaks. -/

/-- Where a draft starts that ends here with its last character that is no blank. -/
def solidStart (cursor : Cursor) : Place :=
  { cursor.place with column := cursor.place.column - cursor.solidDraft.length }

/-- Takes a line break. Inside a draft it is folded: it is a space, and each empty line after it a
line break. -/
def lineBreak (cursor : Cursor) (char : Char) : Cursor :=
  let trimmed :=
    { cursor with
      draftPlace :=
        if cursor.hasDraft && cursor.draftPlace.isNone then some cursor.solidStart
        else cursor.draftPlace
      spelling := cursor.spelling.dropWhile isGap
      draft := if cursor.spelling.head?.any isGap then cursor.solidDraft else cursor.draft }
  let (single, ending) := match cursor.rest with
    | '\r' :: '\n' :: _ => ((trimmed.spell '\r').skip 1, '\n')
    | _ => (trimmed, char)
  let ended :=
    if (single.rest.drop 1).isEmpty || single.word != .ordinary then single.flush else single
  let folded :=
    if ended.hasDraft && ended.atLineStart then
      { ended with draft := '\n' :: Block.dropFront ' ' ended.draft }
    else ended.addDraft ' '
  (folded.spell ending).nextLine

def space (cursor : Cursor) : Cursor :=
  if cursor.atLineStart then (cursor.spell ' ').forward 1
  else
    match cursor.word with
    | .ordinary => cursor.letter ' '
    | .name => { (cursor.flush.spell ' ').forward 1 with word := .ordinary }
    | .directive => (cursor.flush.spell ' ').forward 1

/-- Takes a tab. It separates, but cannot stand in front of a line that has to be indented. -/
def tab? (cursor : Cursor) : Option Cursor :=
  if (cursor.hasDraft && cursor.mark = 0) || cursor.mark < cursor.place.column then
    some { (cursor.spell '\t').skip 1 with indent := cursor.indent + 1 }
  else if cursor.inFlow || !cursor.atLineStart then some (cursor.letter '\t')
  else none

/-! All characters. -/

def plainStep? (cursor : Cursor) (char : Char) : Option Cursor :=
  let opens := !cursor.hasDraft || cursor.inFlow
  if isBreak char then some (cursor.lineBreak char)
  else if char = ' ' then some cursor.space
  else if char = '\t' then cursor.tab?
  else if char = '\x7b' && opens then
    some { cursor.pushMark .mapStart 1 with openMaps := cursor.openMaps + 1 }
  else if char = '\x7d' && 0 < cursor.openMaps then
    some { cursor.pushMark .mapEnd 1 with openMaps := cursor.openMaps - 1 }
  else if char = '[' && opens then
    some { cursor.pushMark .listStart 1 with openLists := cursor.openLists + 1 }
  else if char = ']' && (!cursor.hasDraft || 0 < cursor.openLists) then
    some { cursor.pushMark .listEnd 1 with openLists := cursor.openLists - 1 }
  else if char = ',' && cursor.inFlow then some (cursor.pushMark .comma 1)
  else if char = '.' && cursor.isDocumentEnd then some (cursor.pushMark .documentEnd 3)
  else if char = '<' && cursor.isMergeKey then some cursor.mergeKey
  else if char = '-' then some cursor.hyphen
  else if char = ':' then cursor.colon?
  else if char = '#' && (!cursor.hasDraft ||
      cursor.spelling.head?.any fun before => isGap before || isBreak before) then
    some cursor.comment
  else if cursor.hasDraft then some (cursor.letter char)
  else if char = '|' || char = '>' then cursor.blockHeader? (char == '|')
  else if char = '!' && cursor.word != .directive then cursor.tag?
  else if char = '%' && cursor.indent = 0 then
    some { cursor.pushMark .directive 1 with word := .directive }
  else if char = '?' && (cursor.rest.drop 1).head?.any isGap then
    some { cursor.pushMark .question 1 with mark := cursor.place.column }
  else if char = '&' then some { cursor.pushMark .anchor 1 with word := .name }
  else if char = '*' then some { cursor.pushMark .reference 1 with word := .name }
  else if char = '\'' || char = '"' then cursor.quoted? (char == '\'')
  else if char = '@' || char = '\x60' then none
  else some (cursor.letter char)

def step? (cursor : Cursor) (char : Char) : Option Cursor :=
  let noticed := cursor.notice char
  let started := if noticed.shift = .down then noticed.flush else noticed
  match started.block with
  | none => started.plainStep? char
  | some block =>
      if started.shift = .down then started.leaveBlock?.bind fun left => left.plainStep? char
      else started.blockStep? block char

/-- Reads to the end of the text. Every step takes a character, so that the length of the text is
fuel enough. -/
def run? : Nat → Cursor → Option Cursor
  | 0, cursor => some cursor
  | fuel + 1, cursor =>
      match cursor.rest with
      | [] => some cursor
      | char :: _ =>
          match cursor.step? char with
          | some next => run? fuel next
          | none => none

end Cursor

def decode (source : Bytes) : List Char :=
  (Text.glyphs source).map fun glyph => Char.ofNat glyph.code

def tokens? (chars : List Char) : Option (List Token) :=
  (Cursor.run? chars.length { rest := chars }).map fun cursor =>
    cursor.flush.tokens.reverse.filter fun token => token.lexeme != .comment

end ExprCompiler.Yaml
