import PathDoc.Text.Ranges

/-!
# Blank characters

The characters with the Unicode property `White_Space`.
-/

set_option autoImplicit false

namespace PathDoc.Text

/-- The ranges of the property `White_Space`. -/
def blankRanges : Ranges := [
  (0x9, 0xd), (0x20, 0x20), (0x85, 0x85), (0xa0, 0xa0), (0x1680, 0x1680), (0x2000, 0x200a),
  (0x2028, 0x2029), (0x202f, 0x202f), (0x205f, 0x205f), (0x3000, 0x3000)
]

/-- Whether a character has the property `White_Space`. -/
def isBlank (c : Char) : Bool :=
  blankRanges.holds c.toNat

/-- The text without its leading blanks. -/
def dropBlanks (text : List Char) : List Char :=
  text.dropWhile isBlank

end PathDoc.Text
