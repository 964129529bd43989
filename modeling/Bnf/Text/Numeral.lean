import Bnf.Text.Blank
import Bnf.UnicodeData

/-!
# Numerals

A whole number is written with an optional sign and decimal digits of any script, and single low
lines may stand between digits. Blanks around it do not count, except for the separators of records.
A numeral has at most 4300 digits.
-/

namespace Bnf.Text

variable [UnicodeData]

/-- The characters that may surround a numeral. -/
def isNumeralBlank (c : Char) : Bool :=
  isBlank c && !(0x1C ≤ c.toNat && c.toNat ≤ 0x1F)

/-- The values of the digits of a numeral without sign, if it is well written. -/
def digitValues? : List Char → Option (List Nat)
  | [] => none
  | [c] => (UnicodeData.digitValue? c).map ([·])
  | c :: '_' :: rest => do return (← UnicodeData.digitValue? c) :: (← digitValues? rest)
  | c :: rest => do return (← UnicodeData.digitValue? c) :: (← digitValues? rest)

/-- The number that a numeral without sign writes. -/
def natural? (text : List Char) : Option Nat := do
  let values ← digitValues? text
  if values.length ≤ 4300 then
    return values.foldl (fun sum value => sum * 10 + value) 0
  else none

/-- The number that a numeral writes. -/
def integer? (text : List Char) : Option Int :=
  match ((text.dropWhile isNumeralBlank).reverse.dropWhile isNumeralBlank).reverse with
  | '-' :: rest => (natural? rest).map fun number => -(number : Int)
  | '+' :: rest => (natural? rest).map Int.ofNat
  | rest => (natural? rest).map Int.ofNat

end Bnf.Text
