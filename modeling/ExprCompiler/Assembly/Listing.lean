import ExprCompiler.Assembly.OperandText
import ExprCompiler.Assembly.Program
import ExprCompiler.Word

/-!
Reading listings. A listing is read line by line: section headers, declarations of global and
imported names, labels, instructions in the code section and data in the other two. The first line
that breaks a rule ends the reading; names are checked when all lines are read.
-/

namespace ExprCompiler

inductive LineCause where
  | invalidLabel (label : Bytes)
  | emptyDefinition (label : Bytes)
  | missingLabel (place : Section)
  | operand (problem : OperandError)
  | misplacedReservation (directive : Bytes)
  | invalidCount (text : Bytes)
  | unknownDirective (word : Bytes)
  | misplacedDefinition (directive : Bytes)
  | wideText (directive : Bytes)
  | invalidValue (text : Bytes)
  deriving DecidableEq, Repr

def LineCause.message : LineCause → Bytes
  | .invalidLabel label => utf8 "invalid label '" ++ label ++ utf8 "'"
  | .emptyDefinition label =>
      utf8 "label '" ++ label ++ utf8 "' outside .text has no definition"
  | .missingLabel place => utf8 "unlabelled definition in " ++ place.name
  | .operand problem => problem.message
  | .misplacedReservation directive => directive ++ utf8 " outside .bss"
  | .invalidCount text => utf8 "invalid reservation count '" ++ text ++ utf8 "'"
  | .unknownDirective word => utf8 "unknown directive '" ++ word ++ utf8 "'"
  | .misplacedDefinition directive => directive ++ utf8 " outside .rdata"
  | .wideText directive => utf8 "string in " ++ directive
  | .invalidValue text => utf8 "invalid value '" ++ text ++ utf8 "'"

inductive ListingError where
  | malformed (line : Nat) (cause : LineCause)
  | duplicateLabel (label : Bytes) (line first : Nat)
  | unknownSection (name : Bytes) (line : Nat)
  | undefinedLabel (label : Bytes) (line : Nat)
  deriving DecidableEq, Repr

namespace ListingError

def onLine (line : Nat) : Bytes := utf8 " on line " ++ Text.decimal line

def quoted (name : Bytes) : Bytes := utf8 " '" ++ name ++ utf8 "'"

def message : ListingError → Bytes
  | malformed line cause => utf8 "syntax error" ++ onLine line ++ utf8 ": " ++ cause.message
  | duplicateLabel label line first =>
      utf8 "duplicate label" ++ quoted label ++ onLine line ++ utf8 " (first defined" ++
        onLine first ++ utf8 ")"
  | unknownSection name line => utf8 "unknown section" ++ quoted name ++ onLine line
  | undefinedLabel label line => utf8 "undefined label" ++ quoted label ++ onLine line

end ListingError

structure ListingReader where
  place : Section := .outside
  /-- Every label so far with the line that defines it. -/
  defined : Table Nat := []
  program : Program := {}
  deriving DecidableEq, Repr

namespace ListingReader

abbrev Step := Except ListingError ListingReader

def isLabelGlyph (glyph : Text.Glyph) : Bool :=
  isNamePart glyph.code || glyph.code == 0x20 || glyph.code == 9

/-- Splits a line at the colon of a label in front; both parts are trimmed. -/
def splitLabel? (line : Bytes) : Option (Bytes × Bytes) :=
  let parts := Text.glyphs line
  match parts.takeWhile isLabelGlyph, parts.dropWhile isLabelGlyph with
  | first :: before, colon :: after =>
      if colon.code = 0x3a then
        some (Text.trim (Text.glyphBytes (first :: before)), Text.trim (Text.glyphBytes after))
      else none
  | _, _ => none

def readOperands : List Bytes → Except OperandError (List Operand)
  | [] => .ok []
  | text :: rest => do
      let operand ← readOperand text
      let operands ← readOperands rest
      .ok (operand :: operands)

def readInstruction (number : Nat) (line : Bytes) : Except OperandError Instruction :=
  let (head, rest) := Text.splitHead line
  (readOperands (splitOperands rest)).map fun operands =>
    ⟨number, .ofText (Text.lowerCase head), operands⟩

def addInstruction (reader : ListingReader) (number : Nat) (line : Bytes) : Step :=
  match readInstruction number line with
  | .error problem => .error (.malformed number (.operand problem))
  | .ok instruction =>
      let program := reader.program
      .ok { reader with
        program := { program with instructions := program.instructions.push instruction } }

def reservedSize? (directive : Bytes) : Option Nat :=
  if directive = utf8 "resb" then some 1
  else if directive = utf8 "resw" then some 2
  else if directive = utf8 "resd" then some 4
  else if directive = utf8 "resq" then some 8
  else none

def definedSize? (directive : Bytes) : Option Nat :=
  if directive = utf8 "db" then some 1
  else if directive = utf8 "dw" then some 2
  else if directive = utf8 "dd" then some 4
  else if directive = utf8 "dq" then some 8
  else none

/-- The text between a pair of double or single quotes, as it stands. -/
def unquote? : Bytes → Option Bytes
  | mark :: rest =>
      if (mark = 0x22 || mark = 0x27) && rest.getLast? = some mark then some rest.dropLast
      else none
  | [] => none

def valueBytes (directive : Bytes) (size : Nat) (text : Bytes) : Except LineCause Bytes :=
  match unquote? text with
  | some content => if size = 1 then .ok content else .error (.wideText directive)
  | none =>
      match Text.readInteger 64 text with
      | .error _ => .error (.invalidValue text)
      | .ok value => .ok (littleEndian size (BitVec.ofInt 64 value).toNat)

def valuesBytes (directive : Bytes) (size : Nat) : List Bytes → Except LineCause Bytes
  | [] => .ok []
  | text :: rest => do
      let first ← valueBytes directive size text
      let later ← valuesBytes directive size rest
      .ok (first ++ later)

def readCount? (text : Bytes) : Option Nat :=
  match Text.readInteger 32 (Text.trim text) with
  | .ok (.ofNat count) => some count
  | _ => none

def readContents (place : Section) (line : Bytes) : Except LineCause Contents :=
  let (head, rest) := Text.splitHead line
  let directive := Text.lowerCase head
  match reservedSize? directive with
  | some size =>
      if place ≠ .reserved then .error (.misplacedReservation directive)
      else
        match readCount? rest with
        | some count => .ok (.zeros (count * size))
        | none => .error (.invalidCount rest)
  | none =>
      match definedSize? directive with
      | none => .error (.unknownDirective head)
      | some size =>
          if place ≠ .constants then .error (.misplacedDefinition directive)
          else (valuesBytes directive size (splitOperands rest)).map .bytes

def addData (reader : ListingReader) (number : Nat) (label line : Bytes) : Step :=
  match readContents reader.place line with
  | .error cause => .error (.malformed number cause)
  | .ok contents =>
      let program := reader.program
      let item : DataItem := ⟨number, label, contents⟩
      match contents with
      | .zeros _ =>
          .ok { reader with
            program := { program with reservations := program.reservations ++ [item] } }
      | .bytes _ =>
          .ok { reader with
            program := { program with constants := program.constants ++ [item] } }

def define (reader : ListingReader) (number : Nat) (label : Bytes) : Step :=
  match reader.defined.find? label with
  | some first => .error (.duplicateLabel label number first)
  | none => .ok { reader with defined := reader.defined ++ [(label, number)] }

/-- Lets a code label stand for the next instruction. -/
def markCode (reader : ListingReader) (label : Bytes) : ListingReader :=
  let program := reader.program
  { reader with
    program :=
      { program with labels := program.labels ++ [(label, program.instructions.size)] } }

def addLabelled (reader : ListingReader) (number : Nat) (label rest : Bytes) : Step :=
  if !isName label then .error (.malformed number (.invalidLabel label))
  else
    match reader.define number label with
    | .error problem => .error problem
    | .ok known =>
        if known.place = .code then
          let marked := known.markCode label
          if rest = [] then .ok marked else marked.addInstruction number rest
        else if rest = [] then .error (.malformed number (.emptyDefinition label))
        else known.addData number label rest

inductive LineWord where
  | sectionHeader | globals | imports
  deriving DecidableEq, Repr

def LineWord.ofText? (word : Bytes) : Option LineWord :=
  if word = utf8 "section" || word = utf8 "segment" then some .sectionHeader
  else if word = utf8 "global" then some .globals
  else if word = utf8 "extern" then some .imports
  else none

def readLine (reader : ListingReader) (number : Nat) (raw : Bytes) : Step :=
  let line := Text.trim (withoutComment none raw)
  let (head, rest) := Text.splitHead line
  let program := reader.program
  if line = [] then .ok reader
  else
    match LineWord.ofText? (Text.lowerCase head) with
    | some .sectionHeader =>
        match Section.ofHeader? (Text.lowerCase rest) with
        | some place => .ok { reader with place := place }
        | none => .error (.unknownSection rest number)
    | some .globals =>
        .ok { reader with
          program := { program with globals := program.globals ++ splitOperands rest } }
    | some .imports =>
        .ok { reader with
          program := { program with imports := program.imports ++ splitOperands rest } }
    | none =>
        match splitLabel? line with
        | some (label, after) => reader.addLabelled number label after
        | none =>
            if reader.place = .code then reader.addInstruction number line
            else .error (.malformed number (.missingLabel reader.place))

def readLines (reader : ListingReader) (number : Nat) : List Bytes → Step
  | [] => .ok reader
  | line :: rest =>
      match reader.readLine number line with
      | .error problem => .error problem
      | .ok next => next.readLines (number + 1) rest

def isKnown (reader : ListingReader) (name : Bytes) : Bool :=
  (reader.defined.find? name).isSome || reader.program.isImported name

def unknownSymbol? (reader : ListingReader) (instruction : Instruction) : Option ListingError :=
  (instruction.operands.filterMap Operand.symbol?).findSome? fun name =>
    if reader.isKnown name then none else some (.undefinedLabel name instruction.line)

def finish (reader : ListingReader) : Except ListingError Program :=
  match reader.program.instructions.toList.findSome? reader.unknownSymbol? with
  | some problem => .error problem
  | none => .ok reader.program

end ListingReader

def readListing (text : Bytes) : Except ListingError Program :=
  match ({} : ListingReader).readLines 1 (Text.lines text) with
  | .error problem => .error problem
  | .ok reader => reader.finish

end ExprCompiler
