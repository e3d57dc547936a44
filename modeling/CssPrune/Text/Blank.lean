import CssPrune.Text.Ranges

/-!
# Blank characters

The characters with the Unicode property White_Space. It is wider than the blanks of ASCII (a
no-break space and the ideographic space are blank), and it holds neither the zero width space nor
the byte order mark.
-/

namespace CssPrune.Text

/-- The code points with the property White_Space. -/
def blankRanges : List (Nat × Nat) :=
  [(0x9, 0xD), (0x20, 0x20), (0x85, 0x85), (0xA0, 0xA0), (0x1680, 0x1680), (0x2000, 0x200A),
    (0x2028, 0x2029), (0x202F, 0x202F), (0x205F, 0x205F), (0x3000, 0x3000)]

/-- A character is blank if it has the property White_Space. -/
def isBlank (c : Char) : Bool :=
  inRanges c.toNat blankRanges

end CssPrune.Text
