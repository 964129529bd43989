import Bnf.Text.CodePoints

/-!
# Blank characters

A blank separates words and is dropped at the ends of a line. The blanks are the white space of
Unicode and the four separators of records in ASCII. The zero-width characters are not blank.
-/

namespace Bnf.Text

/-- The code points of the blank characters. -/
def blankRanges : Ranges :=
  [(0x09, 0x0D), (0x1C, 0x20), (0x85, 0x85), (0xA0, 0xA0), (0x1680, 0x1680), (0x2000, 0x200A),
   (0x2028, 0x2029), (0x202F, 0x202F), (0x205F, 0x205F), (0x3000, 0x3000)]

/-- Whether a character is blank. -/
def isBlank (c : Char) : Bool :=
  blankRanges.contains c.toNat

/-- The text without the blanks at its end. -/
def stripEnd (text : List Char) : List Char :=
  (text.reverse.dropWhile isBlank).reverse

/-- The text without the blanks at its two ends. -/
def strip (text : List Char) : List Char :=
  stripEnd (text.dropWhile isBlank)

example : blankRanges.isAscending = true := by decide

example : blankRanges.size = 29 := by decide

end Bnf.Text
