import ExprCompiler.Json.Key

/-!
Reading objects into records. A record says which members it knows and how the value of each is
read; the others are passed over. A member that comes again is read again.
-/

namespace ExprCompiler.Json

/-- Reads a value on top of what is known already. -/
abbrev Reader (α : Type) := α → Input → Option (α × Input)

/-- A member that a record knows, under a name in lower case. -/
structure Field (α : Type) where
  name : String
  read : Reader α

namespace Reader

variable {α β : Type}

def lift (get : α → β) (set : α → β → α) (reader : Reader β) : Reader α := fun whole input =>
  (reader (get whole) input).map fun (part, after) => (set whole part, after)

/-- The word `null` after its first letter; what is known stays. -/
def null (known : α) (input : Input) : Option (α × Input) :=
  ((input.drop 1).afterLetters? (utf8 "ull")).map fun after => (known, after)

def text : Reader Bytes := fun known input =>
  let start := input.skipSpace
  if start.next = 0x22 then (start.drop 1).readString
  else if start.next = 0x6e then null known start
  else none

def bool : Reader Bool := fun known input =>
  let start := input.skipSpace
  if start.next = 0x74 then
    ((start.drop 1).afterLetters? (utf8 "rue")).map fun after => (true, after)
  else if start.next = 0x66 then
    ((start.drop 1).afterLetters? (utf8 "alse")).map fun after => (false, after)
  else if start.next = 0x6e then null known start
  else none

/-- A flag that `null` takes back. -/
def flag : Reader (Option Bool) := fun known input =>
  let start := input.skipSpace
  if start.next = 0x6e then null none start
  else (bool (known.getD false) start).map fun (truth, after) => (some truth, after)

/-- The digits in front of an input: a zero stands alone. -/
def digits (input : Input) : Bytes × Input :=
  if input.next = 0x30 then ([0x30], input.drop 1)
  else
    (input.rest.takeWhile Text.isDecimalByte,
      { input with rest := input.rest.dropWhile Text.isDecimalByte })

def digitsValue (digits : Bytes) : Nat :=
  digits.foldl (fun value byte => value * 10 + (Text.digitValue? byte).getD 0) 0

/-- An integer of 64 bits in at most 19 digits; what does not fit wraps around. After a minus sign
there may be zeros in front, or no digits at all. -/
def int : Reader Int := fun known input =>
  let start := input.skipSpace
  if start.next = 0x6e then null known start
  else if start.next = 0x2d then
    let rest := (start.drop 1).rest
    let found := rest.takeWhile Text.isDecimalByte
    if 19 < found.length then none
    else
      some ((BitVec.ofInt 64 (-(digitsValue found : Int))).toInt,
        { start with rest := rest.dropWhile Text.isDecimalByte })
  else
    let (found, after) := digits start
    if found = [] || 19 < found.length then none
    else some ((BitVec.ofNat 64 (digitsValue found)).toInt, after)

/-- A number of 32 bits. It may have 20 digits, of whose value the last 64 bits count. -/
def word : Reader (BitVec 32) := fun known input =>
  let start := input.skipSpace
  if start.next = 0x6e then null known start
  else
    let (found, after) := digits start
    let value := digitsValue found % 18446744073709551616
    if found = [] || 20 < found.length || 4294967295 < value then none
    else some (BitVec.ofNat 32 value, after)

/-- Items up to the closing bracket. An item that is there already is read on top of what it was,
`known`, and a new one on top of `fresh`. Every item takes a byte, so the length of the text is
fuel enough. -/
def items (item : Reader β) (fresh : β) : Nat → List β → Input → Option (List β × Input)
  | 0, _, _ => none
  | fuel + 1, known, input =>
      match item (known.headD fresh) input with
      | none => none
      | some (first, afterItem) =>
          let mark := afterItem.skipSpace
          if mark.next = 0x5d then some ([first], mark.drop 1)
          else if mark.next = 0x2c then
            (items item fresh fuel (known.drop 1) (mark.drop 1)).map fun (rest, after) =>
              (first :: rest, after)
          else none

def list (item : Reader β) (fresh : β) : Reader (Option (List β)) := fun known input =>
  let start := input.skipSpace
  if start.next = 0x6e then null none start
  else if start.next = 0x5b then
    let first := (start.drop 1).skipSpace
    if first.next = 0x5d then some (some [], first.drop 1)
    else
      (items item fresh first.rest.length (known.getD []) first).map fun (found, after) =>
        (some found, after)
  else none

def members (member : Reader α) : Nat → Reader α
  | 0, _, _ => none
  | fuel + 1, known, input =>
      match member known input with
      | none => none
      | some (next, after) =>
          let mark := after.skipSpace
          if mark.next = 0x7d then some (next, mark.drop 1)
          else if mark.next = 0x2c then members member fuel next (mark.drop 1)
          else none

/-- An object with the members that `member` reads, or `null`, which gives `cleared`. -/
def braces (cleared : α) (member : Reader α) : Reader α := fun known input =>
  let start := input.skipSpace
  if start.next = 0x6e then null cleared start
  else if start.next = 0x7b then
    let first := (start.drop 1).skipSpace
    if first.next = 0x7d then some (known, first.drop 1)
    else members member first.rest.length known first
  else none

def afterColon? (input : Input) : Option Input :=
  let colon := input.skipSpace
  if colon.next = 0x3a then some (colon.drop 1) else none

/-- A table from texts to values, which `null` empties. The word `null` is an empty key. -/
def table (value : Reader β) (fresh : β) (set : α → Bytes → β → α) (empty : α) : Reader α :=
  fun known input =>
    braces empty
      (fun current place =>
        (text [] place).bind fun (key, afterKey) =>
          (afterColon? afterKey).bind fun start =>
            (value fresh start).map fun (found, after) => (set current key found, after))
      known input

def member (fields : List (Field α)) : Reader α := fun known input =>
  let start := input.skipSpace
  let candidates := fields.map fun field => Candidate.ofName (utf8 field.name) field.read
  if start.next = 0x22 then
    match readKey start.form start.rest.length 0 candidates (start.rest.drop 1) with
    | none => none
    | some (target, rest) =>
        (afterColon? { start with rest := rest }).bind fun value =>
          match target with
          | some read => read known value
          | none => (value.skipValue 1).map fun after => (known, after)
  else none

/-- A record from an object with its members; `null` changes nothing. Where an escaped key fits
several names the first of `fields` is meant. -/
def record (fields : List (Field α)) : Reader α := fun known input =>
  braces known (member fields) known input

end Reader

def readDocument {α : Type} (reader : Reader α) (start : α) (text : Bytes) : Option α :=
  match reader start (.document text) with
  | some (value, after) => if after.skipSpace.next = 0 then some value else none
  | none => none

/-- Reads the first value of a stream; what follows it is not looked at. A comma or colon in front
of it is passed over, as between two values. `arriving` tells whether the stream may go on after
`text`. -/
def readStream {α : Type} (reader : Reader α) (start : α) (text : Bytes) (arriving : Bool) :
    Option α :=
  let first := Input.skipSpace ⟨.stream, text, arriving⟩
  let value := if first.next = 0x2c || first.next = 0x3a then first.drop 1 else first
  (reader start value).map Prod.fst

end ExprCompiler.Json
