import ExprCompiler.Json.Text

/-!
Keys of objects. A reader knows some names and compares a key with all of them at once, byte by
byte and without regard to the case of ASCII letters. A key is never stored: as soon as it fits no
name the rest of it is passed over.

A key is taken for the first name that it fits as far as it goes, if it is written with at least as
many bytes as the name has. A key that is spelled out has to be the whole name for that; one with
escapes, which take more bytes than they stand for, may be the beginning of it.
-/

namespace ExprCompiler.Json

/-- A name that a key may still stand for: what it means, its length and its letters not yet
met. -/
structure Candidate (α : Type) where
  target : α
  length : Nat
  ahead : Bytes

namespace Candidate

variable {α : Type}

def ofName (name : Bytes) (target : α) : Candidate α := ⟨target, name.length, name⟩

def advance? (byte : UInt8) (candidate : Candidate α) : Option (Candidate α) :=
  match candidate.ahead with
  | [] => none
  | letter :: letters =>
      if letter = Text.asciiLower byte then some { candidate with ahead := letters } else none

def narrow (bytes : Bytes) (candidates : List (Candidate α)) : List (Candidate α) :=
  bytes.foldl (fun left byte => left.filterMap (advance? byte)) candidates

end Candidate

def skipKey : Bytes → Option Bytes
  | 0x22 :: rest => some rest
  | 0x5c :: 0 :: _ => none
  | 0x5c :: _ :: rest => skipKey rest
  | 0 :: _ => none
  | _ :: rest => skipKey rest
  | [] => none

structure KeyEscape where
  /-- What it stands for. -/
  bytes : Bytes
  /-- How much of the text after the backslash belongs to it if the key may go on. -/
  width : Nat
  /-- How much is passed over if the key turns out to stand for nothing. -/
  skipped : Nat

/-- The escape in front of a text. One with a letter takes the byte after it with it; in a stream,
half a surrogate pair takes four more bytes, and an unknown letter is refused. -/
def keyEscape? (form : Form) : Bytes → Option KeyEscape
  | [] => none
  | 0x75 :: rest =>
      let unit := hexQuad rest
      match form with
      | .document =>
          if rest.length < 4 then none else some ⟨Text.encodeScalar unit, 5, 1⟩
      | .stream =>
          let width := if isSurrogate unit then 9 else 5
          some ⟨Text.encodeScalar unit, width, width⟩
  | letter :: _ =>
      match form, letterEscape? letter with
      | .document, some byte => some ⟨[byte], 2, 1⟩
      | .stream, some byte => some ⟨[byte], 2, 2⟩
      | .document, none => some ⟨[], 2, 1⟩
      | .stream, none => none

/-- Reads a key after its opening quote; `length` bytes of it have been passed. Every step takes a
byte, so the length of the text is fuel enough. -/
def readKey {α : Type} (form : Form) :
    Nat → Nat → List (Candidate α) → Bytes → Option (Option α × Bytes)
  | 0, _, _, _ => none
  | _ + 1, _, _, [] => none
  | fuel + 1, length, candidates, byte :: rest =>
      if byte = 0 then none
      else if byte = 0x22 then
        some ((candidates.head?.filter (·.length ≤ length)).map (·.target), rest)
      else if byte = 0x5c then
        match keyEscape? form rest with
        | none => none
        | some escape =>
            match Candidate.narrow escape.bytes candidates with
            | [] => (skipKey (rest.drop escape.skipped)).map fun after => (none, after)
            | left => readKey form fuel (length + 1 + escape.width) left (rest.drop escape.width)
      else
        match Candidate.narrow [byte] candidates with
        | [] => (skipKey rest).map fun after => (none, after)
        | left => readKey form fuel (length + 1) left rest

end ExprCompiler.Json
