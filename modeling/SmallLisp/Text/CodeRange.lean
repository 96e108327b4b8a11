/-!
# Ranges of code points

Classes of characters given by a table of inclusive ranges in increasing order.
-/

namespace SmallLisp

/-- Whether the code point of a character lies in one of the ranges. Since they are in increasing
order, the search ends at the first range that starts behind the character. -/
def inRanges (c : Char) : List (Nat × Nat) → Bool
  | [] => false
  | range :: ranges =>
    if c.toNat < range.1 then false
    else if c.toNat ≤ range.2 then true
    else inRanges c ranges

end SmallLisp
