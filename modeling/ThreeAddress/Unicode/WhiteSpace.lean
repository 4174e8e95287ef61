import ThreeAddress.Unicode.Ranges

/-!
# White space

The property `White_Space` of Unicode 16.0.
-/

namespace ThreeAddress

/-- The ranges of the property `White_Space`. -/
def whiteSpaceRanges : Ranges :=
  [(0x9, 0xD), (0x20, 0x20), (0x85, 0x85), (0xA0, 0xA0), (0x1680, 0x1680), (0x2000, 0x200A),
   (0x2028, 0x2029), (0x202F, 0x202F), (0x205F, 0x205F), (0x3000, 0x3000)]

/-- A character that separates tokens. -/
def isWhiteSpace (c : Char) : Bool := whiteSpaceRanges.contains c.toNat

end ThreeAddress
