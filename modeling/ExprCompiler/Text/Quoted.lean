import ExprCompiler.Text.Utf8
import ExprCompiler.Text.Printable

/-!
Quoted texts in messages. Printable characters stand for themselves; the quote, the backslash,
control characters, unprintable characters and bytes that are no valid UTF-8 are escaped.
-/

namespace ExprCompiler.Text

def doubleQuote : UInt8 := 0x22

def singleQuote : UInt8 := 0x27

def backslash : UInt8 := 0x5c

def shortEscape? (code : Nat) : Option UInt8 :=
  if code = 7 then some 0x61
  else if code = 8 then some 0x62
  else if code = 9 then some 0x74
  else if code = 10 then some 0x6e
  else if code = 11 then some 0x76
  else if code = 12 then some 0x66
  else if code = 13 then some 0x72
  else none

def escapeCode (quote : UInt8) (code : Nat) (bytes : Bytes) : Bytes :=
  if code = quote.toNat || code = backslash.toNat then backslash :: bytes
  else if isPrintable code then bytes
  else
    match shortEscape? code with
    | some letter => [backslash, letter]
    | none =>
        if code < 0x20 || code = 0x7f then backslash :: 0x78 :: hexFixed 2 code
        else if code < 0x10000 then backslash :: 0x75 :: hexFixed 4 code
        else backslash :: 0x55 :: hexFixed 8 code

def escapeGlyph (quote : UInt8) (glyph : Glyph) : Bytes :=
  if glyph.isInvalid then backslash :: 0x78 :: hexBytes glyph.bytes
  else escapeCode quote glyph.code glyph.bytes

def quote (text : Bytes) : Bytes :=
  doubleQuote :: ((glyphs text).flatMap (escapeGlyph doubleQuote) ++ [doubleQuote])

def quoteCode (code : Nat) : Bytes :=
  singleQuote :: (escapeCode singleQuote code (encodeScalar code) ++ [singleQuote])

def padRight (width : Nat) (text : Bytes) : Bytes :=
  text ++ List.replicate (width - (glyphs text).length) 0x20

end ExprCompiler.Text
