import ExprCompiler.Text.Utf8

/-!
White space and trimming.
-/

namespace ExprCompiler.Text

def isBlank (code : Nat) : Bool :=
  (9 ≤ code && code ≤ 13) || code == 0x20 || code == 0x85 || code == 0xa0 || code == 0x1680 ||
    (0x2000 ≤ code && code ≤ 0x200a) || code == 0x2028 || code == 0x2029 || code == 0x202f ||
    code == 0x205f || code == 0x3000

def Glyph.isBlank (glyph : Glyph) : Bool := Text.isBlank glyph.code

def glyphBytes (glyphs : List Glyph) : Bytes := glyphs.flatMap Glyph.bytes

def trim (text : Bytes) : Bytes :=
  glyphBytes (((glyphs text).dropWhile Glyph.isBlank).reverse.dropWhile Glyph.isBlank).reverse

/-- Splits off the first blank-delimited word of a text; both parts are trimmed. -/
def splitHead (text : Bytes) : Bytes × Bytes :=
  let parts := glyphs (trim text)
  (glyphBytes (parts.takeWhile (!·.isBlank)), trim (glyphBytes (parts.dropWhile (!·.isBlank))))

end ExprCompiler.Text
