import ExprCompiler.Text.Quoted

/-!
Character sets of sources and listings. Texts are UTF-8 inside the program; a set decodes file bytes
into such a text and encodes a text back. Which sets there are is left to a registry that the
program is given. Decoding always succeeds and marks what it cannot read with the replacement
character, encoding fails on a character that the set lacks.
-/

namespace ExprCompiler

structure Charset where
  /-- The name that the set is registered under. -/
  canonical : Bytes
  decode : Bytes → Bytes
  /-- The bytes of a text, or what is wrong with a text that the set cannot write. -/
  encode : Bytes → Except Bytes Bytes

/-- Finds a set by any of its names. -/
structure CharsetRegistry where
  find? : Bytes → Option Charset

namespace CharsetRegistry

/-- Finds the set for a name, the empty name meaning UTF-8; fails with the name that is unknown. -/
def resolve (charsets : CharsetRegistry) (name : Bytes) : Except Bytes Charset :=
  let wanted := if name = [] then utf8 "UTF-8" else name
  match charsets.find? wanted with
  | some charset => .ok charset
  | none => .error wanted

def unknownMessage (name : Bytes) : Bytes := utf8 "unknown text encoding: " ++ Text.quote name

end CharsetRegistry
end ExprCompiler
