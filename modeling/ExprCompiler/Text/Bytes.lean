/-!
Byte strings. Sources, listings and messages are plain lists of bytes: a source may hold bytes that
are no valid UTF-8, and diagnostics have to repeat them unchanged.
-/

namespace ExprCompiler

abbrev Bytes := List UInt8

/-- The UTF-8 bytes of a string constant. -/
def utf8 (text : String) : Bytes := text.toUTF8.data.toList

namespace Text

def decimalNat (value : Nat) : Bytes :=
  if value < 10 then [UInt8.ofNat (48 + value)]
  else decimalNat (value / 10) ++ [UInt8.ofNat (48 + value % 10)]
termination_by value

def decimal : Int → Bytes
  | .ofNat value => decimalNat value
  | .negSucc value => 45 :: decimalNat (value + 1)

def hexDigit (value : Nat) : UInt8 :=
  if value < 10 then UInt8.ofNat (48 + value) else UInt8.ofNat (87 + value)

def hexFixed : Nat → Nat → Bytes
  | 0, _ => []
  | width + 1, value => hexFixed width (value / 16) ++ [hexDigit (value % 16)]

def hexNat (value : Nat) : Bytes :=
  if value < 16 then [hexDigit value] else hexNat (value / 16) ++ [hexDigit (value % 16)]
termination_by value

def hexBytes (text : Bytes) : Bytes := text.flatMap fun byte => hexFixed 2 byte.toNat

/-- The pieces between separators; there is always at least one. `piece` holds the bytes of the
current piece, last first. -/
def splitFrom (separator : UInt8) (piece : Bytes) : Bytes → List Bytes
  | [] => [piece.reverse]
  | byte :: rest =>
      if byte = separator then piece.reverse :: splitFrom separator [] rest
      else splitFrom separator (byte :: piece) rest

def splitOn (separator : UInt8) (text : Bytes) : List Bytes := splitFrom separator [] text

def lines (text : Bytes) : List Bytes := splitOn 10 text

def join (separator : Bytes) : List Bytes → Bytes
  | [] => []
  | [piece] => piece
  | piece :: pieces => piece ++ separator ++ join separator pieces

def afterWord? : Bytes → Bytes → Option Bytes
  | [], text => some text
  | _ :: _, [] => none
  | letter :: word, byte :: rest => if letter = byte then afterWord? word rest else none

/-- Lexicographic order by byte value. -/
def precedes : Bytes → Bytes → Bool
  | [], _ => true
  | _ :: _, [] => false
  | left :: lefts, right :: rights => left < right || (left == right && precedes lefts rights)

/-- Inserts a text into a strictly increasing list, which stays strictly increasing. -/
def insertSorted (text : Bytes) : List Bytes → List Bytes
  | [] => [text]
  | first :: rest =>
      if text = first then first :: rest
      else if precedes text first then text :: first :: rest
      else first :: insertSorted text rest

def sortedSet (texts : List Bytes) : List Bytes :=
  texts.foldl (fun sorted text => insertSorted text sorted) []

end Text
end ExprCompiler
