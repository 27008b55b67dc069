import TextGrammar.Unicode.RangeTable

/-!
# Whitespace

The characters with the property `White_Space`.
-/

namespace TextGrammar.Unicode

/-- The code points with the property `White_Space`, as increasing inclusive ranges. -/
def whitespaceRanges : RangeTable := [
  (0x9, 0xD), (0x20, 0x20), (0x85, 0x85), (0xA0, 0xA0), (0x1680, 0x1680), (0x2000, 0x200A),
  (0x2028, 0x2029), (0x202F, 0x202F), (0x205F, 0x205F), (0x3000, 0x3000)]

/-- Whether a character has the property `White_Space`. -/
def isWhitespace (c : Char) : Bool :=
  whitespaceRanges.contains c.toNat

end TextGrammar.Unicode
