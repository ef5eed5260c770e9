import ExprCompiler.Json.Input
import ExprCompiler.Text.Utf8

/-!
Strings in JSON. A stream replaces bytes that are no valid UTF-8 and refuses escapes it does not
know; a document keeps all bytes, reads an escape it does not know as a zero byte and insists on
the digits of numeric escapes. Surrogates without a partner are read as U+FFFD.
-/

namespace ExprCompiler.Json

def hexValue (byte : UInt8) : Nat :=
  if Text.isHexByte byte then (Text.digitValue? byte).getD 0 else 0

def hexQuad (text : Bytes) : Nat :=
  (List.range 4).foldl (fun value index => value * 16 + hexValue (text.getD index 0)) 0

def isSurrogate (unit : Nat) : Bool := 0xd800 ≤ unit && unit ≤ 0xdfff

def letterEscape? (letter : UInt8) : Option UInt8 :=
  if letter = 0x22 || letter = 0x5c || letter = 0x2f then some letter
  else if letter = 0x62 then some 8
  else if letter = 0x66 then some 12
  else if letter = 0x6e then some 10
  else if letter = 0x72 then some 13
  else if letter = 0x74 then some 9
  else none

def lowHalf? : Bytes → Option Nat
  | 0x5c :: 0x75 :: rest =>
      if 0xdc00 ≤ hexQuad rest && hexQuad rest ≤ 0xdfff then some (hexQuad rest) else none
  | _ => none

/-- The code point of a numeric escape, and how many bytes after its digits belong to it. -/
def joinHalves (unit : Nat) (rest : Bytes) : Nat × Nat :=
  if 0xd800 ≤ unit && unit ≤ 0xdbff then
    match lowHalf? rest with
    | some low => (0x10000 + (unit - 0xd800) * 1024 + (low - 0xdc00), 6)
    | none => (Text.replacementCode, 0)
  else if isSurrogate unit then (Text.replacementCode, 0)
  else (unit, 0)

/-- Reads a string of a stream up to its closing quote; `found` holds the bytes before, last
first. -/
def readStreamed (found : Bytes) (text : Bytes) : Option (Bytes × Bytes) :=
  match text with
  | [] => none
  | 0 :: _ => none
  | 0x22 :: rest => some (found.reverse, rest)
  | 0x5c :: 0x75 :: rest =>
      let (code, extra) := joinHalves (hexQuad rest) (rest.drop 4)
      readStreamed ((Text.encodeScalar code).reverse ++ found) (rest.drop (4 + extra))
  | 0x5c :: letter :: rest =>
      match letterEscape? letter with
      | some byte => readStreamed (byte :: found) rest
      | none => none
  | 0x5c :: [] => none
  | lead :: rest =>
      let glyph := Text.firstGlyph lead rest
      readStreamed ((Text.encodeScalar glyph.code).reverse ++ found)
        (rest.drop (glyph.bytes.length - 1))
termination_by text.length
decreasing_by
  all_goals simp only [List.length_drop, List.length_cons]
  all_goals omega

def readStored (found : Bytes) (text : Bytes) : Option (Bytes × Bytes) :=
  match text with
  | [] => none
  | 0 :: _ => none
  | 0x22 :: rest => some (found.reverse, rest)
  | 0x5c :: 0x75 :: rest =>
      let (code, extra) := joinHalves (hexQuad rest) (rest.drop 4)
      if (rest.take 4).length = 4 && (rest.take 4).all Text.isHexByte then
        readStored ((Text.encodeScalar code).reverse ++ found) (rest.drop (4 + extra))
      else none
  | 0x5c :: letter :: rest =>
      if letter = 0 then none else readStored ((letterEscape? letter).getD 0 :: found) rest
  | 0x5c :: [] => none
  | byte :: rest => readStored (byte :: found) rest
termination_by text.length
decreasing_by
  all_goals simp only [List.length_drop, List.length_cons]
  all_goals omega

def Input.readString (input : Input) : Option (Bytes × Input) :=
  let read := match input.form with
    | .document => readStored [] input.rest
    | .stream => readStreamed [] input.rest
  read.map fun (content, rest) => (content, { input with rest := rest })

end ExprCompiler.Json
