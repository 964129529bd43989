import Bnf.Trace

/-!
# Transcripts

A transcript is what a program writes, in order: its output, its diagnostics, and the events of its
trace. The trace is shown among the output, and the diagnostics apart from it.
-/

namespace Bnf

/-- One thing that a program writes. -/
inductive Piece where
  | output (text : String)
  | diagnostic (text : String)
  | trace (event : Trace.Event)
  deriving Repr, DecidableEq

/-- What a program writes, in order. -/
abbrev Transcript := List Piece

namespace Transcript

/-- The transcript of a trace. -/
def ofEvents (events : List Trace.Event) : Transcript :=
  events.map .trace

/-- The output of a transcript alone. -/
def replies (transcript : Transcript) : String :=
  String.join (transcript.map fun
    | .output text => text
    | .diagnostic _ | .trace _ => "")

/-- The trace of a transcript alone, as it is shown under the settings. -/
def trace (settings : Trace.Settings) (transcript : Transcript) : String :=
  String.join (transcript.map fun
    | .trace event => settings.renderEvent event
    | .output _ | .diagnostic _ => "")

/-- The output of a transcript with its trace among it, as it is shown under the settings. -/
def output (settings : Trace.Settings) (transcript : Transcript) : String :=
  String.join (transcript.map fun
    | .output text => text
    | .trace event => settings.renderEvent event
    | .diagnostic _ => "")

/-- The diagnostics of a transcript. -/
def diagnostics (transcript : Transcript) : String :=
  String.join (transcript.map fun
    | .diagnostic text => text
    | .output _ | .trace _ => "")

end Transcript

end Bnf
