/-!
# Line breaks

Every character that ends a line on a screen, not only the newline that ends a line of source
text. A message that quotes the source stops at the first of them.
-/

set_option autoImplicit false

namespace MipsSource.Text

/-- The code points that end a line. -/
def lineBreakCodes : List Nat :=
  [0xa, 0xb, 0xc, 0xd, 0x1c, 0x1d, 0x1e, 0x85, 0x2028, 0x2029]

/-- Does the character end a line? -/
def isLineBreak (c : Char) : Bool :=
  lineBreakCodes.contains c.toNat

/-- The text up to its first line break. -/
def firstLine (text : List Char) : List Char :=
  text.takeWhile (!isLineBreak ·)

end MipsSource.Text
