import SmallLisp.Text.CodeRange

/-!
# Blank characters

The characters that separate tokens: the 25 characters with the Unicode property `White_Space`.
-/

namespace SmallLisp

/-- The code points with the property `White_Space`, as inclusive ranges in increasing order. -/
def blankRanges : List (Nat × Nat) :=
  [(0x09, 0x0D), (0x20, 0x20), (0x85, 0x85), (0xA0, 0xA0), (0x1680, 0x1680), (0x2000, 0x200A),
   (0x2028, 0x2029), (0x202F, 0x202F), (0x205F, 0x205F), (0x3000, 0x3000)]

/-- A character is blank if its code point lies in one of the ranges. -/
def isBlank (c : Char) : Bool :=
  inRanges c blankRanges

/-- A text is blank if it holds no other character. -/
def isBlankText (text : String) : Bool :=
  text.toList.all isBlank

/-- The table holds 25 characters. -/
example : (blankRanges.map fun range => range.2 - range.1 + 1).sum = 25 := by decide

end SmallLisp
