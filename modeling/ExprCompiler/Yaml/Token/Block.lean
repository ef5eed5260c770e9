import ExprCompiler.Yaml.Token.Basic

/-!
Block scalars. Their text starts in the column of the first line that has any; what stands deeper
keeps its extra blanks. In a folded block a line break between two lines of the same depth is a
space. The header says what becomes of the line breaks at the end.
-/

namespace ExprCompiler.Yaml

/-- The line breaks at the end of a block: none is kept, one is, or all are. -/
inductive Chomp where
  | strip
  | clip
  | keep
  deriving DecidableEq, Repr

structure Block where
  literal : Bool
  chomp : Chomp := .clip
  /-- Whether the header gives the depth of the text. -/
  fixed : Bool := false
  /-- The column of the text, or zero before it is known. -/
  column : Nat := 0
  /-- The column where the text of this line starts, or zero. -/
  lineColumn : Nat := 0
  previousColumn : Nat := 0
  /-- The length of a line of blanks before the text. -/
  blankLength : Nat := 0
  /-- Whether the last line break may still become a space. -/
  folding : Bool := false
  /-- The text so far, last first. -/
  settled : List Char := []
  /-- Spaces after it, which count only if more text follows. -/
  loose : Nat := 0
  deriving DecidableEq, Repr

namespace Block

/-- Adds a character; spaces in front of all text are no part of it. -/
def add (block : Block) (char : Char) : Block :=
  if char = ' ' then
    if block.settled = [] then block else { block with loose := block.loose + 1 }
  else
    { block with settled := char :: (List.replicate block.loose ' ' ++ block.settled), loose := 0 }

/-- Adds a space in front of the text of a line, which counts if it stands in the text. -/
def addIndent (block : Block) (column : Nat) : Block :=
  if block.column = 0 || column < block.column then block
  else
    { block with
      settled := ' ' :: (List.replicate block.loose ' ' ++ block.settled)
      loose := 0
      folding := false }

def isBeforeText (block : Block) (column : Nat) : Bool :=
  if block.column = 0 then column == 1 else column < block.column

def endLine (block : Block) (column : Nat) : Block :=
  { block with
    blankLength := if block.column = 0 then column - 1 else block.blankLength
    previousColumn := block.lineColumn
    lineColumn := 0
    folding := true }

/-- Joins a line to the one before it, if both are equally deep; after empty lines one break
fewer is kept. -/
def joinLine (block : Block) : Block :=
  if block.literal || !block.folding then block
  else
    let settled := match block.settled with
      | '\n' :: before =>
          if block.lineColumn = block.previousColumn then ' ' :: before
          else if block.previousColumn = 0 && before.head? = some '\n' then before
          else block.settled
      | others => others
    { block with settled := settled, folding := false }

def addText? (block : Block) (column : Nat) (char : Char) : Option Block :=
  if block.column = 0 && column < block.blankLength then none
  else
    let first := if block.column = 0 then column else block.column
    let own := if block.lineColumn = 0 then column else block.lineColumn
    if block.fixed && own < first then none
    else some (({ block with column := first, lineColumn := own }).joinLine.add char)

/-- Drops all line breaks at the end of a text whose last character comes first. -/
def dropBreaks (settled : List Char) : List Char := settled.dropWhile (· == '\n')

def content (block : Block) : List Char :=
  let settled := block.settled
  let chomped := match block.chomp with
    | .strip => (dropBreaks settled).dropWhile (· == ' ')
    | .clip => if settled.head? = some '\n' then '\n' :: dropBreaks settled else settled
    | .keep => settled
  let text := if chomped = ['\n'] then [] else chomped
  if block.chomp = .keep && text = [] then ['\n'] else text.reverse

def chompOf (option : List Char) : Chomp :=
  if option.head? = some '-' || option.getLast? = some '-' then .strip
  else if option.head? = some '+' || option.getLast? = some '+' then .keep
  else .clip

def dropFront (char : Char) (chars : List Char) : List Char :=
  if chars.head? = some char then chars.drop 1 else chars

def dropBack (char : Char) (chars : List Char) : List Char :=
  if chars.getLast? = some char then chars.dropLast else chars

/-- The depth that a header gives, zero if it gives none; `none` if it is no header. -/
def depthOf? (option : List Char) : Option Nat :=
  let digits := dropBack '+' (dropBack '-' (dropFront '+' (dropFront '-' option)))
  if digits = [] then some 0
  else
    (digitsValue? 10 (encode digits)).bind fun depth =>
      if 0 < depth && depth < 10 then some depth else none

/-- The block after a header below an entry in column `mark`. -/
def ofHeader? (literal : Bool) (mark : Nat) (option : List Char) : Option Block :=
  (depthOf? option).map fun depth =>
    { literal := literal
      chomp := chompOf option
      fixed := depth != 0
      column := if depth = 0 then 0 else mark + depth }

end Block
end ExprCompiler.Yaml
