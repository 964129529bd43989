import Bnf.Files
import Bnf.Grammar.Loading
import Bnf.Text.Quoted
import Bnf.Transcript

/-!
# Reading grammars from files

A file that cannot be opened loads nothing and leaves a diagnostic. That its content is not encoded
as it should be, or that the path cannot be the path of any file, is a fault.
-/

namespace Bnf

/-- How the path of a file leads to its content. -/
abbrev FileReader := String → Except OpenFailure ByteArray

variable [UnicodeData]

/-- The diagnostic for a grammar file that cannot be opened. -/
def OpenFailure.diagnostic (failure : OpenFailure) (path : String) : String :=
  "Error reading BNF file: " ++ failure.message ++ ": " ++
    String.ofList (Text.quoted path.toList) ++ "\n"

/-- What loading has written. -/
def Loaded.transcript (loaded : Loaded) : Transcript :=
  Transcript.ofEvents loaded.events

/-- Loads the rules of a file into a grammar, and tells what is written meanwhile. -/
def Grammar.loadFrom (grammar : Grammar) (files : FileReader) (path : String) :
    Loaded × Transcript :=
  if Char.ofNat 0 ∈ path.toList then (⟨grammar, .error .nullInPath, []⟩, [])
  else match files path with
    | .ok bytes =>
      let loaded := grammar.loadBytes bytes
      (loaded, loaded.transcript)
    | .error failure => (⟨grammar, .ok 0, []⟩, [.diagnostic (failure.diagnostic path)])

end Bnf
