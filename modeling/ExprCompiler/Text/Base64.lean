import ExprCompiler.Text.Bytes

/-!
Bytes in base 64: four characters stand for three bytes, and equal signs fill up the last four.
-/

namespace ExprCompiler.Text

def base64Digit? (byte : UInt8) : Option Nat :=
  let value := byte.toNat
  if 65 ≤ value && value ≤ 90 then some (value - 65)
  else if 97 ≤ value && value ≤ 122 then some (value - 71)
  else if 48 ≤ value && value ≤ 57 then some (value + 4)
  else if value = 43 then some 62
  else if value = 47 then some 63
  else none

/-- The bytes of rows of four characters, up to the first row that is none. -/
def base64Rows : Bytes → Bytes
  | a :: b :: c :: d :: rest =>
      match base64Digit? a, base64Digit? b, base64Digit? c, base64Digit? d with
      | some first, some second, some third, some fourth =>
          UInt8.ofNat (first * 4 + second / 16) :: UInt8.ofNat (second % 16 * 16 + third / 4) ::
            UInt8.ofNat (third % 4 * 64 + fourth) :: base64Rows rest
      | some first, some second, some third, none =>
          if d = 0x3d then
            [UInt8.ofNat (first * 4 + second / 16), UInt8.ofNat (second % 16 * 16 + third / 4)]
          else []
      | some first, some second, none, _ =>
          if c = 0x3d && d = 0x3d then [UInt8.ofNat (first * 4 + second / 16)] else []
      | _, _, _, _ => []
  | _ => []

/-- The bytes that a text stands for; line breaks in it are skipped. -/
def decodeBase64 (text : Bytes) : Bytes :=
  base64Rows (text.filter fun byte => byte != 10 && byte != 13)

end ExprCompiler.Text
