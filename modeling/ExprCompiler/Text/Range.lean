/-!
Membership in a set of code points given as a list of alternating first and last members of its
ranges.
-/

namespace ExprCompiler.Text

def inRanges : List Nat → Nat → Bool
  | first :: last :: ranges, code => (first ≤ code && code ≤ last) || inRanges ranges code
  | _, _ => false

end ExprCompiler.Text
