import ExprCompiler.Table
import ExprCompiler.Text.Blank
import ExprCompiler.Text.Integer
import ExprCompiler.Text.Letter
import ExprCompiler.Text.Quoted

/-!
Files of environment variables: lines `NAME=value`, with comments, quotes, an optional `export` and
references to variables set earlier in the same file.
-/

namespace ExprCompiler.EnvFile

def isSpaceCode (code : Nat) : Bool :=
  code == 9 || code == 11 || code == 12 || code == 13 || code == 0x20 || code == 0x85 ||
    code == 0xa0

def isSpaceGlyph (glyph : Text.Glyph) : Bool := isSpaceCode glyph.code

def dropGlyphs (belongs : Text.Glyph → Bool) (text : Bytes) : Bytes :=
  match text with
  | [] => []
  | lead :: rest =>
      let glyph := Text.firstGlyph lead rest
      if belongs glyph then dropGlyphs belongs (rest.drop (glyph.bytes.length - 1))
      else lead :: rest
termination_by text.length
decreasing_by simp only [List.length_drop, List.length_cons]; omega

def skipSpace (text : Bytes) : Bytes := dropGlyphs isSpaceGlyph text

def skipBlank (text : Bytes) : Bytes := dropGlyphs Text.Glyph.isBlank text

/-- Goes on to the next assignment. The fuel bounds the number of comments skipped. -/
def nextStatement : Nat → Bytes → Bytes
  | 0, text => text
  | fuel + 1, text =>
      match skipBlank text with
      | 0x23 :: rest => nextStatement fuel (rest.dropWhile (· != 10))
      | statement => statement

/-- A number sign other than a decimal digit, among the first 256 code points. -/
def isNumberCode (code : Nat) : Bool :=
  code == 0xb2 || code == 0xb3 || code == 0xb9 || (0xbc ≤ code && code ≤ 0xbe)

/-- Bytes of a name; every byte is taken as a code point of its own. -/
def isNameByte (byte : UInt8) : Bool :=
  let code := byte.toNat
  code == 0x5f || code == 0x2e || isSpaceCode code || Text.isLetter code || Text.isDigit code ||
    isNumberCode code

def dropExport (statement : Bytes) : Bytes :=
  match Text.afterWord? (utf8 "export") statement with
  | some rest => if (skipSpace rest).length < rest.length then skipSpace rest else statement
  | none => statement

def trimRight (text : Bytes) : Bytes :=
  Text.glyphBytes ((Text.glyphs text).reverse.dropWhile Text.Glyph.isBlank).reverse

/-- The name of an assignment and what follows it. A name at the very end of a file that is not
followed by a sign is read as a value without a name; the word `export` alone is malformed. -/
def readName (text : Bytes) : Option (Bytes × Bytes) :=
  let statement := dropExport text
  let name := statement.takeWhile isNameByte
  match statement.dropWhile isNameByte with
  | [] => if statement = [] then none else some ([], skipSpace statement)
  | byte :: rest =>
      if byte = 0x3d || byte = 0x3a then some (trimRight name, skipSpace rest) else none

/-! References. -/

def isVariableByte (byte : UInt8) : Bool :=
  (65 ≤ byte.toNat && byte.toNat ≤ 90) || Text.isDecimalByte byte || byte == 0x5f

def dropOne (byte : UInt8) (text : Bytes) : Bytes :=
  if text.head? = some byte then text.drop 1 else text

theorem length_dropOne_le (byte : UInt8) (text : Bytes) :
    (dropOne byte text).length ≤ text.length := by
  unfold dropOne; split <;> simp

theorem length_dropWhile_le (keep : UInt8 → Bool) (text : Bytes) :
    (text.dropWhile keep).length ≤ text.length :=
  (List.dropWhile_sublist keep).length_le

def referenceName (text : Bytes) : Bytes :=
  (dropOne 0x7b (dropOne 0x28 text)).takeWhile isVariableByte

def afterReference (text : Bytes) : Bytes :=
  dropOne 0x7d ((dropOne 0x7b (dropOne 0x28 text)).dropWhile isVariableByte)

theorem length_afterReference_le (text : Bytes) : (afterReference text).length ≤ text.length :=
  calc
    (afterReference text).length
      ≤ ((dropOne 0x7b (dropOne 0x28 text)).dropWhile isVariableByte).length :=
        length_dropOne_le _ _
    _ ≤ (dropOne 0x7b (dropOne 0x28 text)).length := length_dropWhile_le _ _
    _ ≤ (dropOne 0x28 text).length := length_dropOne_le _ _
    _ ≤ text.length := length_dropOne_le _ _

/-- Replaces references such as `$NAME` and braced ones by the values of earlier variables. A
backslash keeps the sign after it. -/
def expand (known : Table Bytes) (text : Bytes) : Bytes :=
  match text with
  | [] => []
  | 0x5c :: 0x24 :: rest =>
      let taken := rest.length - (afterReference rest).length
      0x24 :: (rest.take taken ++ expand known (afterReference rest))
  | 0x24 :: rest =>
      let taken := rest.length - (afterReference rest).length
      let value :=
        if referenceName rest = [] then 0x24 :: rest.take taken
        else (known.find? (referenceName rest)).getD []
      value ++ expand known (afterReference rest)
  | byte :: rest => byte :: expand known rest
termination_by text.length
decreasing_by
  · have shorter := length_afterReference_le rest
    simp only [List.length_cons]; omega
  · have shorter := length_afterReference_le rest
    simp only [List.length_cons]; omega
  · simp

/-! Values. -/

/-- Cuts a comment off an unquoted value: the last number sign that follows a blank starts it. -/
def cutComment (content : List Text.Glyph) : List Text.Glyph :=
  let marks := (List.range content.length).filter fun index =>
    match index with
    | 0 => false
    | before + 1 =>
        (content[before + 1]?.any fun glyph => glyph.code == 0x23) &&
          content[before]?.any isSpaceGlyph
  match marks.getLast? with
  | some start => content.take start
  | none => content

def trimSpace (line : List Text.Glyph) : List Text.Glyph :=
  ((line.dropWhile isSpaceGlyph).reverse.dropWhile isSpaceGlyph).reverse

def isLineEnd (byte : UInt8) : Bool := byte == 10 || byte == 13

def readPlain (known : Table Bytes) (text : Bytes) : Bytes × Bytes :=
  let line := Text.glyphs (text.takeWhile (!isLineEnd ·))
  let value := (trimSpace (cutComment line)).flatMap fun glyph => Text.encodeScalar glyph.code
  (expand known value, text.dropWhile (!isLineEnd ·))

def breakEscapes : Bytes → Bytes
  | 0x5c :: 0x6e :: rest => 10 :: breakEscapes rest
  | 0x5c :: 0x72 :: rest => 13 :: breakEscapes rest
  | 0x5c :: 10 :: rest => 0x5c :: 10 :: breakEscapes rest
  | 0x5c :: byte :: rest => 0x5c :: byte :: breakEscapes rest
  | byte :: rest => byte :: breakEscapes rest
  | [] => []

/-- Drops the backslash before every character but the sign of a reference. -/
def dropBackslashes : Bytes → Bytes
  | 0x5c :: byte :: rest =>
      if byte = 0x24 then 0x5c :: 0x24 :: dropBackslashes rest else byte :: dropBackslashes rest
  | byte :: rest => byte :: dropBackslashes rest
  | [] => []

/-- Splits at the first closing quote without a backslash before it; `before` holds the bytes up to
there, last first. -/
def splitQuote (quote : UInt8) (before : Bytes) : Bytes → Option (Bytes × Bytes)
  | [] => none
  | byte :: rest =>
      if byte = quote && before.head? != some Text.backslash then some (before.reverse, rest)
      else splitQuote quote (byte :: before) rest

/-- A quoted value. Double quotes admit escapes and references, single quotes do not. -/
def readQuoted (known : Table Bytes) (quote : UInt8) (text : Bytes) : Option (Bytes × Bytes) :=
  (splitQuote quote [] text).map fun (inner, rest) =>
    let value := ((inner.dropWhile (· == quote)).reverse.dropWhile (· == quote)).reverse
    if quote = Text.doubleQuote then
      (expand known (dropBackslashes (breakEscapes value)), rest)
    else (value, rest)

def readValue (known : Table Bytes) (text : Bytes) : Option (Bytes × Bytes) :=
  match text with
  | 0x22 :: rest => readQuoted known 0x22 rest
  | 0x27 :: rest => readQuoted known 0x27 rest
  | _ => some (readPlain known text)

/-- Reads assignment after assignment; each takes at least one byte. -/
def readFrom : Nat → Table Bytes → Bytes → Option (Table Bytes)
  | 0, known, _ => some known
  | fuel + 1, known, text =>
      let statement := nextStatement (text.length + 1) text
      if statement.isEmpty then some known
      else
        match readName statement with
        | none => none
        | some (name, afterName) =>
            match readValue known afterName with
            | none => none
            | some (value, rest) => readFrom fuel (known.set name value) rest

/-- Carriage returns before line feeds are no part of a file. -/
def normalizeBreaks : Bytes → Bytes
  | 13 :: 10 :: rest => 10 :: normalizeBreaks rest
  | byte :: rest => byte :: normalizeBreaks rest
  | [] => []

def read? (text : Bytes) : Option (Table Bytes) :=
  readFrom (text.length + 1) [] (normalizeBreaks text)

/-- Adds the variables of a file to an environment. Variables that are set already keep their
values, and what no environment can hold is left out. -/
def addTo (environment known : Table Bytes) : Table Bytes :=
  known.foldl
    (fun result entry =>
      if entry.1 = [] || entry.2.contains 0 || (environment.find? entry.1).isSome then result
      else Table.set entry.1 entry.2 result)
    environment

end ExprCompiler.EnvFile
