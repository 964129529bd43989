import Bnf.Grammar.Basic
import Bnf.Grammar.RuleLine
import Bnf.Text.Encoded
import Bnf.Traced

/-!
# Reading grammars from lines

`Grammar.readLine` adds the rule of one line or faults. `Grammar.load` adds the rules of many lines:
it passes over blank lines and comments, skips a malformed line with a note, and counts the rules. A
definition that cannot be read is a fault at which it stops. `Grammar.loadBytes` loads the lines of
an encoded file.
-/

namespace Bnf

/-- A grammar after loading, the number of rules that were loaded or the fault that ended the
loading, and its trace. -/
structure Loaded where
  grammar : Grammar
  result : Except Fault Nat
  events : List Trace.Event

namespace Grammar

variable [UnicodeData]

/-- Adds the rule that a line writes, and gives the name of the rule. -/
def readLine (grammar : Grammar) (line : String) : Traced String × Grammar :=
  let noted (result : Except Fault String) : Traced String := ⟨[⟨0, .line line⟩], result⟩
  match RuleLine.read? line.toList with
  | some (name, source) =>
    let (result, changed) := grammar.insert (String.ofList name) (String.ofList source)
    (noted (result.map fun _ => String.ofList name), changed)
  | none => (noted (.error (.malformedLine line)), grammar)

/-- Loads one more line, unless the loading has ended in a fault. -/
def loadLine (loaded : Loaded) (line : List Char) : Loaded :=
  match loaded.result with
  | .error _ => loaded
  | .ok count =>
    let text := Text.strip line
    if RuleLine.isSkipped text then loaded
    else
      let (reading, changed) := loaded.grammar.readLine (String.ofList text)
      let events := loaded.events ++ reading.events
      match reading.result with
      | .ok _ => ⟨changed, .ok (count + 1), events⟩
      | .error (.malformedLine _) =>
        ⟨changed, .ok count, events ++ [⟨0, .skipped (String.ofList text)⟩]⟩
      | .error fault => ⟨changed, .error fault, events⟩

/-- Loads lines into a grammar. -/
def load (grammar : Grammar) (lines : List (List Char)) : Loaded :=
  lines.foldl loadLine ⟨grammar, .ok 0, []⟩

/-- The grammar that lines write. -/
def ofLines (lines : List (List Char)) : Grammar :=
  (empty.load lines).grammar

/-- Loads the lines of a text, whatever characters end them. -/
def loadText (grammar : Grammar) (text : String) : Loaded :=
  grammar.load (Text.lines (Text.unifyLineEnds text.toList))

/-- Loads the lines of a text that is encoded in UTF-8. If the encoding is broken, the lines that
are complete before the first broken chunk are loaded before the fault. -/
def loadBytes (grammar : Grammar) (bytes : ByteArray) : Loaded :=
  match String.fromUTF8? bytes with
  | some text => grammar.loadText text
  | none =>
    let loaded := grammar.load (Text.completeLines (Text.decodedChunks bytes).toList)
    { loaded with result := loaded.result.bind fun _ => .error .undecodable }

end Grammar

end Bnf
