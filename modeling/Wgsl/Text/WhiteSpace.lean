import Wgsl.Text.CodeRange

/-!
# White space

The Unicode property White_Space, in full: 25 characters, among them the no-break spaces and the
line and paragraph separators. The zero-width space U+200B and the byte order mark U+FEFF are not
among them.
-/

namespace Wgsl.Text

/-- The code points with the property White_Space. -/
def whiteSpaceRanges : List (Nat × Nat) :=
  [(0x9, 0xD), (0x20, 0x20), (0x85, 0x85), (0xA0, 0xA0), (0x1680, 0x1680), (0x2000, 0x200A),
   (0x2028, 0x2029), (0x202F, 0x202F), (0x205F, 0x205F), (0x3000, 0x3000)]

/-- The ranges ascend, so that each character is in one at most. -/
theorem ascending_whiteSpaceRanges : ascending 0 whiteSpaceRanges = true := by decide +kernel

/-- The character has the Unicode property White_Space. -/
def isWhiteSpace (c : Char) : Bool := covers whiteSpaceRanges c.toNat

end Wgsl.Text
