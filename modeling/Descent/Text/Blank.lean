import Descent.Text.Ranges

/-! Blanks: the characters that carry the Unicode property White_Space. -/
namespace Descent.Text

/-- Code points with the property White_Space. -/
def blankRanges : List (Nat × Nat) :=
  [(0x9, 0xD), (0x20, 0x20), (0x85, 0x85), (0xA0, 0xA0), (0x1680, 0x1680), (0x2000, 0x200A),
   (0x2028, 0x2029), (0x202F, 0x202F), (0x205F, 0x205F), (0x3000, 0x3000)]

/-- A blank separates tokens and belongs to none. -/
def isBlank (c : Char) : Bool := covers blankRanges c.toNat

end Descent.Text
