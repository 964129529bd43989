import Bnf.Text.Delimited
import Bnf.UnicodeData

/-!
# Quoted text

A text is quoted for a message so that every character of it can be seen. The quotes are apostrophes
unless the text holds an apostrophe and no quotation mark. The quote and the backslash are written
behind a backslash, and a character that cannot be printed as its code point in hexadecimal.
-/

namespace Bnf.Text

/-- The apostrophe, which is the preferred quote. -/
def apostrophe : Char := Char.ofNat 0x27

/-- The quotation mark. -/
def quotationMark : Char := Char.ofNat 0x22

/-- A number in hexadecimal, filled up with zeros to a width. -/
def hexadecimal (width number : Nat) : List Char :=
  (Nat.toDigits 16 number).leftpad width '0'

variable [UnicodeData]

/-- A character as it is written between these quotes. -/
def escaped (quote c : Char) : List Char :=
  if c = quote ∨ c = '\\' then ['\\', c]
  else if c = '\n' then ['\\', 'n']
  else if c = '\r' then ['\\', 'r']
  else if c = '\t' then ['\\', 't']
  else if UnicodeData.isPrintable c then [c]
  else if c.toNat < 0x100 then ['\\', 'x'] ++ hexadecimal 2 c.toNat
  else if c.toNat < 0x10000 then ['\\', 'u'] ++ hexadecimal 4 c.toNat
  else ['\\', 'U'] ++ hexadecimal 8 c.toNat

/-- A text in quotes. -/
def quoted (text : List Char) : List Char :=
  let quote :=
    if apostrophe ∈ text ∧ quotationMark ∉ text then quotationMark else apostrophe
  delimit quote quote (text.flatMap (escaped quote))

end Bnf.Text
