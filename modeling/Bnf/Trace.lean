import Bnf.Definition.Printer

/-!
# Traces

A run can be followed by its trace: the grammar lines that are read, the rules that the matcher
enters and leaves, and the single tokens that it compares. A run always records all its events. How
many of them are shown is a matter of `Trace.Settings`: a note is shown if its level does not exceed
the level of the settings. So the trace cannot influence a run.
-/

namespace Bnf

namespace Trace

/-- What happened at one point of a run. -/
inductive Note where
  /-- The matcher began to match a rule at a position. -/
  | entered (rule : String) (start : Int)
  /-- The matcher finished a rule, and found where its match ends or that there is none. -/
  | left (rule : String) (finish : Option Int)
  /-- A token matched a symbol. -/
  | matched (token : String) (symbol : Symbol)
  /-- A token, or the end of the tokens, did not match a symbol. -/
  | unmatched (token : Option String) (symbol : Symbol)
  /-- A symbol was met that can match nothing. -/
  | unmatchable (symbol : Symbol)
  /-- A line of a grammar is being read. -/
  | line (text : String)
  /-- A line of a grammar was skipped because it is malformed. -/
  | skipped (text : String)
  deriving Repr, DecidableEq

/-- The level from which on a note is shown: lines from the first, rules from the second, tokens
from the third. -/
def Note.level : Note → Int
  | line _ | skipped _ => 1
  | entered _ _ | left _ _ => 2
  | matched _ _ | unmatched _ _ | unmatchable _ => 3

/-- The text of a note. -/
def Note.text : Note → String
  | entered rule start => "<" ++ rule ++ "> at " ++ toString start
  | left rule (some finish) => "<" ++ rule ++ "> -> " ++ toString finish
  | left rule none => "<" ++ rule ++ "> -> None"
  | matched token symbol => "match: " ++ token ++ " " ++ String.ofList symbol.code
  | unmatched (some token) symbol => "no match: " ++ token ++ " " ++ String.ofList symbol.code
  | unmatched none symbol => "no match: <END> " ++ String.ofList symbol.code
  | unmatchable symbol => "unknown symbol: " ++ String.ofList symbol.code
  | line text => text
  | skipped text => "skipped malformed line: " ++ text

/-- A note together with the number of rules that were being matched when it was taken. -/
structure Event where
  depth : Nat
  note : Note
  deriving Repr, DecidableEq

/-- The event one rule further inside. -/
def Event.deeper (event : Event) : Event :=
  { event with depth := event.depth + 1 }

/-- How much of a trace is shown, and how far its outermost lines are indented. An indentation
below zero is shown as none. -/
structure Settings where
  level : Int := 0
  indent : Int := 0
  deriving Repr, DecidableEq

/-- A line at a level and a depth, as it is shown under the settings. -/
def Settings.renderLine (settings : Settings) (level : Int) (depth : Nat) (text : String) :
    String :=
  if level ≤ settings.level then
    String.ofList (List.replicate (settings.indent + depth).toNat ' ') ++ text ++ "\n"
  else ""

/-- An event as it is shown under the settings. -/
def Settings.renderEvent (settings : Settings) (event : Event) : String :=
  settings.renderLine event.note.level event.depth event.note.text

/-- A trace as it is shown under the settings. -/
def Settings.render (settings : Settings) (events : List Event) : String :=
  String.join (events.map settings.renderEvent)

end Trace

end Bnf
