import Redline.Text.Ranges

/-!
# Blanks

The characters that count as white space around and between words.
-/

namespace Redline

/-- The code points of white space, separators of every width and the separator controls. -/
def blanks : List (Nat × Nat) :=
  [
    (0x9, 0xD), (0x1C, 0x20), (0x85, 0x85), (0xA0, 0xA0), (0x1680, 0x1680),
    (0x2000, 0x200A), (0x2028, 0x2029), (0x202F, 0x202F), (0x205F, 0x205F), (0x3000, 0x3000)
  ]

/-- White space. -/
def isBlank (c : Char) : Bool :=
  inRanges blanks c.toNat

end Redline
