import ExprCompiler.Text.Integer

/-!
What JSON is read from, and how values are passed over that nobody asked for. Such values are not
checked: their strings and brackets have to close, and what stands in between is anything.
-/

namespace ExprCompiler.Json

inductive Form where
  /-- A text that is at hand as a whole. -/
  | document
  /-- A text that arrives while it is read. -/
  | stream
  deriving DecidableEq, Repr

/-- Where reading stands. A zero byte ends a text as its last byte does. -/
structure Input where
  form : Form
  rest : Bytes
  /-- Whether more may come. A reader that meets the end of such an input waits once, and then
  knows better. -/
  arriving : Bool
  deriving DecidableEq, Repr

namespace Input

def document (text : Bytes) : Input := ⟨.document, text, false⟩

/-- The next byte, zero at the end. -/
def next (input : Input) : UInt8 := input.rest.headD 0

def drop (count : Nat) (input : Input) : Input := { input with rest := input.rest.drop count }

def isSpace (byte : UInt8) : Bool := byte == 0x20 || byte == 9 || byte == 10 || byte == 13

/-- Passes over blanks. An input that ends there has been waited for. -/
def skipSpace (input : Input) : Input :=
  let rest := input.rest.dropWhile isSpace
  { input with rest := rest, arriving := input.arriving && rest.headD 0 != 0 }

/-- Passes over the letters of a word. Where an input ends for the first time, a letter is taken
for granted. -/
def afterLetters? : Bytes → Input → Option Input
  | [], input => some input
  | letter :: letters, input =>
      if input.next = letter then afterLetters? letters (input.drop 1)
      else if input.next = 0 && input.arriving then
        afterLetters? letters { input.drop 1 with arriving := false }
      else none

/-! Values that nobody asked for. -/

def isNumberByte (byte : UInt8) : Bool :=
  Text.isDecimalByte byte || byte == 0x2b || byte == 0x2d || byte == 0x2e || byte == 0x45 ||
    byte == 0x65

/-- Passes over the bytes of a number and over the first end of an arriving input. -/
def skipNumber (arriving : Bool) : Bytes → Bytes × Bool
  | [] => ([], false)
  | byte :: rest =>
      if isNumberByte byte then skipNumber arriving rest
      else if byte = 0 && arriving then skipNumber false rest
      else (byte :: rest, arriving)

def skipString (arriving : Bool) : Bytes → Option (Bytes × Bool)
  | 0x22 :: rest => some (rest, arriving)
  | 0x5c :: 0 :: rest => if arriving then skipString false rest else none
  | 0x5c :: _ :: rest => skipString arriving rest
  | 0 :: _ => none
  | _ :: rest => skipString arriving rest
  | [] => none

def depthLimit : Int := 10000

def isOpening (byte : UInt8) : Bool := byte == 0x5b || byte == 0x7b

def isClosing (byte : UInt8) : Bool := byte == 0x5d || byte == 0x7d

/-- Passes over what stands between brackets. `count` brackets of the kind that `opening` and
`closing` name are still open; brackets of the other kind are not matched, but all of them count
for the depth. Every step takes a byte, so the length of the text is fuel enough. -/
def skipNested (opening closing : UInt8) : Nat → Nat → Int → Bool → Bytes → Option (Bytes × Bool)
  | 0, _, _, _, _ => none
  | _ + 1, _, _, _, [] => none
  | fuel + 1, count, depth, arriving, byte :: rest =>
      let deeper :=
        if isOpening byte then depth + 1 else if isClosing byte then depth - 1 else depth
      if byte = 0 then none
      else if byte = 0x22 then
        match skipString arriving rest with
        | some (after, waiting) => skipNested opening closing fuel count depth waiting after
        | none => none
      else if isOpening byte && depthLimit < deeper then none
      else if byte = closing then
        if count ≤ 1 then some (rest, arriving)
        else skipNested opening closing fuel (count - 1) deeper arriving rest
      else if byte = opening then
        skipNested opening closing fuel (count + 1) deeper arriving rest
      else skipNested opening closing fuel count deeper arriving rest

def startsValue (byte : UInt8) : Bool :=
  isOpening byte || Text.isDecimalByte byte || byte == 0x22 || byte == 0x2d || byte == 0x74 ||
    byte == 0x66 || byte == 0x6e

/-- Passes over a value inside `depth` brackets. In a stream, all that can start no value is passed
over with it. -/
def skipValue (depth : Int) (input : Input) : Option Input :=
  let isBefore (byte : UInt8) : Bool :=
    match input.form with
    | .document => isSpace byte
    | .stream => !startsValue byte && byte != 0
  let start := input.rest.dropWhile isBefore
  let resume (place : Bytes × Bool) : Input := ⟨input.form, place.1, place.2⟩
  match start with
  | [] => none
  | first :: rest =>
      if first = 0x7b then
        (skipNested 0x7b 0x7d (rest.length + 1) 1 (depth + 1) input.arriving rest).map resume
      else if first = 0x5b then
        (skipNested 0x5b 0x5d (rest.length + 1) 1 (depth + 1) input.arriving rest).map resume
      else if first = 0x22 then (skipString input.arriving rest).map resume
      else if first = 0x2d || Text.isDecimalByte first then
        some (resume (skipNumber input.arriving rest))
      else if first = 0x74 then afterLetters? (utf8 "rue") { input with rest := rest }
      else if first = 0x66 then afterLetters? (utf8 "alse") { input with rest := rest }
      else if first = 0x6e then afterLetters? (utf8 "ull") { input with rest := rest }
      else none

end Input
end ExprCompiler.Json
