/-!
# Unicode data

Which characters are letters, numbers or digits, which can be printed, and what they are called, is
a matter of the version of Unicode. What depends on it takes it from `UnicodeData`, so that what is
proved holds for every version.
-/

namespace Bnf

/-- What a version of Unicode says of its characters. -/
class UnicodeData where
  /-- Whether a character is a letter or a number. -/
  isAlphanumeric : Char → Bool
  /-- The value of a decimal digit of any script, or nothing if the character is not one. -/
  digitValue? : Char → Option Nat
  /-- Whether a character can be printed. -/
  isPrintable : Char → Bool
  /-- The character that has a name. -/
  named? : List Char → Option Char

/-- Whether a character is a decimal digit. -/
def UnicodeData.isDecimalDigit [UnicodeData] (c : Char) : Bool :=
  (digitValue? c).isSome

end Bnf
