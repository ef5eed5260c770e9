import ExprCompiler.Text.Bytes

/-!
Reading and writing UTF-8. Reading never fails: a byte that starts no well-formed sequence stands
for the replacement character and takes one byte.
-/

namespace ExprCompiler.Text

/-- A code point together with the bytes that were read for it. -/
structure Glyph where
  code : Nat
  bytes : Bytes
  deriving DecidableEq, Repr

/-- The code point that stands for bytes that are no valid UTF-8. -/
def replacementCode : Nat := 0xfffd

def within (low high : Nat) (byte : UInt8) : Bool := low ≤ byte.toNat && byte.toNat ≤ high

def isContinuation (byte : UInt8) : Bool := within 0x80 0xbf byte

def continuationBits (byte : UInt8) : Nat := byte.toNat - 0x80

/-- Range of the second byte after a lead byte of a sequence of three or four. It excludes overlong
forms, surrogates and values past the last code point. -/
def secondRange (lead : Nat) : Nat × Nat :=
  if lead = 0xe0 then (0xa0, 0xbf)
  else if lead = 0xed then (0x80, 0x9f)
  else if lead = 0xf0 then (0x90, 0xbf)
  else if lead = 0xf4 then (0x80, 0x8f)
  else (0x80, 0xbf)

def firstGlyph (lead : UInt8) (rest : Bytes) : Glyph :=
  let value := lead.toNat
  let (low, high) := secondRange value
  if value < 0x80 then ⟨value, [lead]⟩
  else if 0xc2 ≤ value && value ≤ 0xdf then
    match rest with
    | second :: _ =>
        if isContinuation second then
          ⟨(value - 0xc0) * 64 + continuationBits second, [lead, second]⟩
        else ⟨replacementCode, [lead]⟩
    | _ => ⟨replacementCode, [lead]⟩
  else if 0xe0 ≤ value && value ≤ 0xef then
    match rest with
    | second :: third :: _ =>
        if within low high second && isContinuation third then
          ⟨((value - 0xe0) * 64 + continuationBits second) * 64 + continuationBits third,
            [lead, second, third]⟩
        else ⟨replacementCode, [lead]⟩
    | _ => ⟨replacementCode, [lead]⟩
  else if 0xf0 ≤ value && value ≤ 0xf4 then
    match rest with
    | second :: third :: fourth :: _ =>
        if within low high second && isContinuation third && isContinuation fourth then
          ⟨(((value - 0xf0) * 64 + continuationBits second) * 64 + continuationBits third) * 64 +
              continuationBits fourth, [lead, second, third, fourth]⟩
        else ⟨replacementCode, [lead]⟩
    | _ => ⟨replacementCode, [lead]⟩
  else ⟨replacementCode, [lead]⟩

def glyphs (text : Bytes) : List Glyph :=
  match text with
  | [] => []
  | lead :: rest =>
      firstGlyph lead rest :: glyphs (rest.drop ((firstGlyph lead rest).bytes.length - 1))
termination_by text.length
decreasing_by simp only [List.length_drop, List.length_cons]; omega

/-- A byte that is part of no well-formed sequence. -/
def Glyph.isInvalid (glyph : Glyph) : Bool :=
  glyph.code == replacementCode && glyph.bytes.length == 1

def isValidUtf8 (text : Bytes) : Bool := (glyphs text).all fun glyph => !glyph.isInvalid

/-- The bytes of a code point; what is no scalar value is written as the replacement character. -/
def encodeScalar (code : Nat) : Bytes :=
  if code < 0x80 then [UInt8.ofNat code]
  else if code < 0x800 then [UInt8.ofNat (0xc0 + code / 64), UInt8.ofNat (0x80 + code % 64)]
  else if (0xd800 ≤ code && code ≤ 0xdfff) || 0x10ffff < code then [0xef, 0xbf, 0xbd]
  else if code < 0x10000 then
    [UInt8.ofNat (0xe0 + code / 4096), UInt8.ofNat (0x80 + code / 64 % 64),
      UInt8.ofNat (0x80 + code % 64)]
  else
    [UInt8.ofNat (0xf0 + code / 262144), UInt8.ofNat (0x80 + code / 4096 % 64),
      UInt8.ofNat (0x80 + code / 64 % 64), UInt8.ofNat (0x80 + code % 64)]

end ExprCompiler.Text
