import Bnf.Text.Alphanumeric
import Bnf.Text.CharacterName
import Bnf.Text.DecimalDigit
import Bnf.Text.Printable
import Bnf.UnicodeData

/-!
# Unicode 14

The version of Unicode that programs run with. Of the names, it knows those of ASCII.
-/

namespace Bnf

instance UnicodeData.version14 : UnicodeData where
  isAlphanumeric := Text.isAlphanumeric
  digitValue? := Text.digitValue?
  isPrintable := Text.isPrintable
  named? := Text.asciiNamed?

end Bnf
