/-!
# Blank characters

The characters that separate words without being seen: the space, the horizontal and vertical
tabs, the line and page ends, and the typographic spaces.
-/

namespace Ipam.Text

/-- Whether a character is white space. -/
def isBlank (c : Char) : Bool :=
  let n := c.toNat
  (9 ≤ n && n ≤ 13) || n == 0x20 || n == 0x85 || n == 0xa0 || n == 0x1680
    || (0x2000 ≤ n && n ≤ 0x200a) || n == 0x2028 || n == 0x2029 || n == 0x202f
    || n == 0x205f || n == 0x3000

/-- A text without the white space at its front. -/
def skipBlanks (cs : List Char) : List Char :=
  cs.dropWhile isBlank

end Ipam.Text
