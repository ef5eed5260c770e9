import ExprCompiler.Yaml.Token.Basic

/-!
Quoted scalars. A line break in them is folded: it becomes a space, and each empty line after it a
line break. In double quotes a backslash starts an escape.
-/

namespace ExprCompiler.Yaml

structure Quotation where
  /-- The characters that follow. -/
  rest : List Char
  place : Place
  /-- What was read, last first. -/
  found : List Char := []
  /-- How it is spelled, last first. -/
  spelling : List Char := []
  /-- Whether only blanks were read since the last line break. -/
  atLineStart : Bool := false
  deriving DecidableEq, Repr

namespace Quotation

def pass (state : Quotation) (count : Nat) : Quotation :=
  { state with
    rest := state.rest.drop count
    place := { state.place with column := state.place.column + count }
    spelling := (state.rest.take count).reverse ++ state.spelling }

def keep (state : Quotation) (count : Nat) (char : Char) : Quotation :=
  { state.pass count with found := char :: state.found, atLineStart := false }

def breakLine (state : Quotation) (count : Nat) : Quotation :=
  { state.pass count with place := ⟨state.place.line + 1, 1⟩, atLineStart := true }

/-- Folds a line break. A document may not end inside quotes. -/
def foldLine? (state : Quotation) : Option Quotation :=
  let trimmed := state.found.dropWhile (· == ' ')
  let folded := (if state.atLineStart then '\n' else ' ') :: trimmed
  if startsDocumentMark (state.rest.drop 1) then none
  else some { state.breakLine 1 with found := folded }

/-- Takes a character that both kinds of quotes treat alike: a line break, or a blank at the start
of a line, where a tab has to stand to the right of column `mark`. -/
def layout? (mark : Nat) (state : Quotation) (char : Char) : Option (Option Quotation) :=
  if isBreak char then some state.foldLine?
  else if state.atLineStart && char == ' ' then some (some (state.pass 1))
  else if state.atLineStart && char == '\t' then
    some (if state.place.column ≤ mark then none else some (state.pass 1))
  else none

/-- Reads to the closing single quote; two quotes stand for one. -/
def single? (mark : Nat) : Nat → Quotation → Option Quotation
  | 0, _ => none
  | fuel + 1, state =>
      match state.rest with
      | [] => none
      | '\'' :: '\'' :: _ =>
          single? mark fuel { state.pass 2 with found := '\'' :: state.found }
      | '\'' :: _ => some (state.pass 1)
      | char :: _ =>
          match state.layout? mark char with
          | some (some next) => single? mark fuel next
          | some none => none
          | none => single? mark fuel (state.keep 1 char)

def letterEscapes : List (Char × Nat) :=
  [('0', 0), ('a', 7), ('b', 8), ('t', 9), ('n', 10), ('v', 11), ('f', 12), ('r', 13),
    ('e', 0x1b), (' ', 0x20), ('"', 0x22), ('/', 0x2f), ('\\', 0x5c), ('N', 0x85), ('_', 0xa0),
    ('L', 0x2028), ('P', 0x2029), ('\t', 9)]

/-- The value of a hexadecimal digit. Other characters count from zero as the decimal digits do. -/
def hexValue (char : Char) : Int :=
  if 'A' ≤ char && char ≤ 'F' then (char.toNat : Int) - 55
  else if 'a' ≤ char && char ≤ 'f' then (char.toNat : Int) - 87
  else (char.toNat : Int) - 48

def hexNumber (digits : List Char) : Int :=
  digits.foldl (fun value digit => value * 16 + hexValue digit) 0

/-- The character of a code point; what is none stands for the replacement character. -/
def charOf (code : Int) : Char :=
  if 0 ≤ code && code.toNat.isValidChar then Char.ofNat code.toNat
  else Char.ofNat Text.replacementCode

def escapeWidth? (letter : Char) : Option Nat :=
  if letter = 'x' then some 2
  else if letter = 'u' then some 4
  else if letter = 'U' then some 8
  else none

def isHighHalf (code : Int) : Bool := 0xd800 ≤ code && code ≤ 0xdbff

def isLowHalf (code : Int) : Bool := 0xdc00 ≤ code && code ≤ 0xdfff

/-- A numeric escape after its letter. Without digits enough it stands for the letter. The first
half of a pair of code units needs the second. -/
def numeric? (state : Quotation) (letter : Char) (width : Nat) (digits : List Char) :
    Option Quotation :=
  if digits.length < width then some (state.keep 2 letter)
  else
    let code := hexNumber (digits.take width)
    if letter = 'u' && isHighHalf code then
      match digits.drop width with
      | '\\' :: 'u' :: rest =>
          let low := hexNumber (rest.take 4)
          if rest.length < 4 || !isLowHalf low then none
          else some (state.keep 12 (charOf ((code - 0xd800) * 0x400 + (low - 0xdc00) + 0x10000)))
      | _ => none
    else some (state.keep (width + 2) (charOf code))

/-- Takes an escape; `rest` follows its backslash. A line break after it is dropped. -/
def escape? (state : Quotation) (rest : List Char) : Option Quotation :=
  match rest with
  | [] => some (state.keep 1 '\\')
  | '\n' :: _ => some (state.breakLine 2)
  | '\r' :: '\n' :: _ => some (state.breakLine 3)
  | '\r' :: _ => some (state.breakLine 2)
  | letter :: digits =>
      match letterEscapes.lookup letter with
      | some code => some (state.keep 2 (Char.ofNat code))
      | none => (escapeWidth? letter).bind fun width => state.numeric? letter width digits

/-- Takes a tab inside a line, which is dropped with the blanks at the end of a line. -/
def tab (state : Quotation) : Quotation :=
  let gap := state.rest.takeWhile isGap
  match state.rest.dropWhile isGap with
  | [] => state.pass gap.length
  | char :: _ =>
      if isBreak char then state.pass gap.length
      else { state.pass 1 with found := '\t' :: state.found }

def double? (mark : Nat) : Nat → Quotation → Option Quotation
  | 0, _ => none
  | fuel + 1, state =>
      match state.rest with
      | [] => none
      | '"' :: _ => some (state.pass 1)
      | '\\' :: rest =>
          match state.escape? rest with
          | some next => double? mark fuel next
          | none => none
      | char :: _ =>
          match state.layout? mark char with
          | some (some next) => double? mark fuel next
          | some none => none
          | none => double? mark fuel (if char = '\t' then state.tab else state.keep 1 char)

end Quotation
end ExprCompiler.Yaml
