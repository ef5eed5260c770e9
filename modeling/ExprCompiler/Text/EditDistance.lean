import ExprCompiler.Text.Utf8

/-!
How many characters have to be inserted, removed or replaced to turn one text into another.
-/

namespace ExprCompiler.Text

/-- The rest of a row of the table of distances. `left` is the cell before, and the row above is
given from the cell diagonally before on. -/
def distanceRow (code left : Nat) : List Nat → List Nat → List Nat
  | other :: others, diagonal :: above :: rest =>
      let replaced := diagonal + if code = other then 0 else 1
      let cell := min replaced (min (left + 1) (above + 1))
      cell :: distanceRow code cell others (above :: rest)
  | _, _ => []

/-- The next row of the table: distances from a text with one more character. -/
def nextDistances (target : List Nat) (row : List Nat) (code : Nat) : List Nat :=
  let first := row.headD 0 + 1
  first :: distanceRow code first target row

def editDistance (source target : Bytes) : Nat :=
  let codes := (glyphs target).map Glyph.code
  let start := List.range (codes.length + 1)
  let last := ((glyphs source).map Glyph.code).foldl (nextDistances codes) start
  last.getLast?.getD 0

end ExprCompiler.Text
