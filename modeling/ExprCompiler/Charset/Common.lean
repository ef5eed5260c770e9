import ExprCompiler.Charset.Basic
import ExprCompiler.Charset.Tables
import ExprCompiler.Text.Blank
import ExprCompiler.Text.LowerCase

/-!
Ten of the registered character sets: UTF-8, the three forms of UTF-16, and single-byte sets with a
table each. A registry of these is what the program is run with; nothing else depends on which sets
it holds.
-/

namespace ExprCompiler

inductive CommonCharset where
  | utf8 | latin1 | latin9 | windows1252 | ascii | utf16 | utf16BE | utf16LE | ibm037 | koi8r
  deriving DecidableEq, Repr

namespace CommonCharset

def all : List CommonCharset :=
  [.utf8, .latin1, .latin9, .windows1252, .ascii, .utf16, .utf16BE, .utf16LE, .ibm037, .koi8r]

def canonicalName : CommonCharset → String
  | utf8 => "UTF-8"
  | latin1 => "ISO_8859-1:1987"
  | latin9 => "ISO-8859-15"
  | windows1252 => "windows-1252"
  | ascii => "US-ASCII"
  | utf16 => "UTF-16"
  | utf16BE => "UTF-16BE"
  | utf16LE => "UTF-16LE"
  | ibm037 => "IBM037"
  | koi8r => "KOI8-R"

def aliases : CommonCharset → List String
  | utf8 => ["csUTF8"]
  | latin1 =>
      ["iso-ir-100", "ISO_8859-1", "ISO-8859-1", "latin1", "l1", "IBM819", "CP819", "csISOLatin1"]
  | latin9 => ["ISO_8859-15", "Latin-9", "csISO885915"]
  | windows1252 => ["cswindows1252"]
  | ascii =>
      ["iso-ir-6", "ANSI_X3.4-1968", "ANSI_X3.4-1986", "ISO_646.irv:1991", "ISO646-US", "us",
        "IBM367", "cp367", "csASCII"]
  | utf16 => ["csUTF16"]
  | utf16BE => ["csUTF16BE"]
  | utf16LE => ["csUTF16LE"]
  | ibm037 =>
      ["cp037", "ebcdic-cp-us", "ebcdic-cp-ca", "ebcdic-cp-wt", "ebcdic-cp-nl", "csIBM037"]
  | koi8r => ["csKOI8R"]

def isNamed (lowered : Bytes) (charset : CommonCharset) : Bool :=
  (charset.canonicalName :: charset.aliases).any fun name =>
    Text.lowerCase (ExprCompiler.utf8 name) == lowered

/-- Finds a set without regard to case and surrounding blanks. -/
def find? (name : Bytes) : Option CommonCharset :=
  all.find? (isNamed (Text.lowerCase (Text.trim name)))

/-- The code points of a single-byte set for the bytes from zero on. -/
def singleByteTable : CommonCharset → List Nat
  | latin1 => List.range 256
  | latin9 => List.range 128 ++ latin9Upper
  | windows1252 => List.range 128 ++ windows1252Upper
  | ascii => List.range 128
  | ibm037 => ibm037All
  | koi8r => List.range 128 ++ koi8rUpper
  | _ => []

/-- How many bytes of an ill-formed sequence one replacement character stands for: the longest part
that could still have become well formed. -/
def illFormedWidth (lead : UInt8) (rest : Bytes) : Nat :=
  let value := lead.toNat
  let (low, high) := Text.secondRange value
  if value < 0xe0 || 0xf4 < value then 1
  else
    match rest with
    | second :: third :: _ =>
        if !Text.within low high second then 1
        else if 0xf0 ≤ value && Text.isContinuation third then 3
        else 2
    | [second] => if Text.within low high second then 2 else 1
    | [] => 1

def repairUtf8 (text : Bytes) : Bytes :=
  match text with
  | [] => []
  | lead :: rest =>
      let glyph := Text.firstGlyph lead rest
      if glyph.isInvalid then
        Text.encodeScalar Text.replacementCode ++
          repairUtf8 (rest.drop (illFormedWidth lead rest - 1))
      else glyph.bytes ++ repairUtf8 (rest.drop (glyph.bytes.length - 1))
termination_by text.length
decreasing_by all_goals simp only [List.length_drop, List.length_cons]; omega

inductive ByteOrder where
  | bigEndian | littleEndian
  deriving DecidableEq, Repr

def ByteOrder.unit : ByteOrder → UInt8 → UInt8 → Nat
  | bigEndian, first, second => first.toNat * 256 + second.toNat
  | littleEndian, first, second => second.toNat * 256 + first.toNat

def ByteOrder.unitBytes : ByteOrder → Nat → Bytes
  | bigEndian, unit => [UInt8.ofNat (unit / 256), UInt8.ofNat unit]
  | littleEndian, unit => [UInt8.ofNat unit, UInt8.ofNat (unit / 256)]

def isHighSurrogate (unit : Nat) : Bool := 0xd800 ≤ unit && unit ≤ 0xdbff

def isLowSurrogate (unit : Nat) : Bool := 0xdc00 ≤ unit && unit ≤ 0xdfff

def surrogatePair (first second : Nat) : Nat :=
  if isHighSurrogate first then 0x10000 + (first - 0xd800) * 1024 + (second - 0xdc00)
  else Text.replacementCode

def decodeUtf16 (order : ByteOrder) : Bytes → Bytes
  | first :: second :: third :: fourth :: rest =>
      let unit := order.unit first second
      let next := order.unit third fourth
      if (isHighSurrogate unit || isLowSurrogate unit) && isLowSurrogate next then
        Text.encodeScalar (surrogatePair unit next) ++ decodeUtf16 order rest
      else Text.encodeScalar unit ++ decodeUtf16 order (third :: fourth :: rest)
  | first :: second :: rest =>
      Text.encodeScalar (order.unit first second) ++ decodeUtf16 order rest
  | [_] => Text.encodeScalar Text.replacementCode
  | [] => []

def encodeUtf16 (order : ByteOrder) (text : Bytes) : Bytes :=
  (Text.glyphs text).flatMap fun glyph =>
    if glyph.code < 0x10000 then order.unitBytes glyph.code
    else
      order.unitBytes (0xd800 + (glyph.code - 0x10000) / 1024) ++
        order.unitBytes (0xdc00 + (glyph.code - 0x10000) % 1024)

def decode (charset : CommonCharset) (bytes : Bytes) : Bytes :=
  match charset with
  | utf8 => repairUtf8 bytes
  | utf16BE => decodeUtf16 .bigEndian bytes
  | utf16LE => decodeUtf16 .littleEndian bytes
  | utf16 =>
      match bytes with
      | 0xfe :: 0xff :: rest => decodeUtf16 .bigEndian rest
      | 0xff :: 0xfe :: rest => decodeUtf16 .littleEndian rest
      | _ => decodeUtf16 .bigEndian bytes
  | single =>
      let table := single.singleByteTable
      bytes.flatMap fun byte => Text.encodeScalar (table.getD byte.toNat Text.replacementCode)

def byteOf? (table : List Nat) (code : Nat) : Option UInt8 :=
  if code = Text.replacementCode then none else (table.idxOf? code).map UInt8.ofNat

def unsupportedMessage : Bytes := ExprCompiler.utf8 "encoding: rune not supported by encoding."

def encode? (charset : CommonCharset) (text : Bytes) : Option Bytes :=
  match charset with
  | utf8 => some ((Text.glyphs text).flatMap fun glyph => Text.encodeScalar glyph.code)
  | utf16BE => some (encodeUtf16 .bigEndian text)
  | utf16LE => some (encodeUtf16 .littleEndian text)
  | utf16 => some (0xfe :: 0xff :: encodeUtf16 .bigEndian text)
  | single =>
      let table := single.singleByteTable
      (Text.glyphs text).mapM fun glyph => byteOf? table glyph.code

def toCharset (charset : CommonCharset) : Charset where
  canonical := ExprCompiler.utf8 charset.canonicalName
  decode := charset.decode
  encode text :=
    match charset.encode? text with
    | some bytes => .ok bytes
    | none => .error unsupportedMessage

end CommonCharset

def CharsetRegistry.common : CharsetRegistry where
  find? name := (CommonCharset.find? name).map CommonCharset.toCharset

end ExprCompiler
