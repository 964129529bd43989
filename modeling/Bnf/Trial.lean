import Bnf.HomeCommands
import Bnf.Grammar.Validation
import Bnf.Transcript

/-!
# Trials

A trial compares the verdicts on sentences with the verdicts that are expected of them. A case is a
line with three fields between tabs: a rule, a sentence, and `valid` or `invalid`. Each case is
reported, and at the end the cases are counted. Parts of a report are marked up, and how marked-up
text is shown is up to a renderer. A fault ends a trial at once, and so does a text that the
renderer cannot show.
-/

namespace Bnf.Trial

/-- How marked-up text is shown, or why it cannot be. -/
abbrev Renderer (Unshown : Type) := String → Except Unshown String

/-- A line of a report. -/
inductive Line where
  | plain (text : String)
  | marked (text : String)
  deriving Repr, DecidableEq

/-- A sentence to be judged by a rule, and the verdict that is expected. -/
structure Case where
  rule : String
  sentence : String
  expected : String
  deriving Repr, DecidableEq

/-- The case that a line writes. -/
def Case.read (line : List Char) : Except Fault Case :=
  match Text.split (· == '\t') line with
  | [rule, sentence, expected] =>
    .ok ⟨String.ofList rule, String.ofList sentence, String.ofList expected⟩
  | fields => .error (if fields.length < 3 then .fieldsMissing 3 fields.length else .fieldsLeft 3)

/-- The cases of a text are its lines that are not blank, stripped. -/
def caseLines (text : String) : List (List Char) :=
  ((Text.lines (Text.unifyLineEnds text.toList)).map Text.strip).filter fun line => !line.isEmpty

/-- The name of a verdict. -/
def verdictName (valid : Bool) : String :=
  if valid then "valid" else "invalid"

/-- Whether the verdict on a case is the expected one. -/
def Case.isMet (case : Case) (valid : Bool) : Bool :=
  verdictName valid == case.expected

/-- The report on a case. An expected verdict that is missed is shown as it was written, so that it
may be marked up itself. -/
def Case.report (case : Case) (valid : Bool) : List Line :=
  [.marked "[b]===",
   .plain ("<" ++ case.rule ++ "> " ++ case.sentence),
   .plain ("-> " ++ verdictName valid),
   .marked
     (if case.isMet valid then "[b green] OK"
      else "[b red] ERROR[/b red] (expected " ++ case.expected ++ ")")]

/-- How many cases were judged, and how many of them as expected. -/
structure Tally where
  met : Nat
  total : Nat
  deriving Repr, DecidableEq

/-- The tally after one more case. -/
def Tally.count (tally : Tally) (isMet : Bool) : Tally :=
  ⟨tally.met + (if isMet then 1 else 0), tally.total + 1⟩

/-- The last line of a report. -/
def Tally.summary (tally : Tally) : Line :=
  let missed := tally.total - tally.met
  let errors :=
    if missed = 0 then ""
    else ", [b red]" ++ toString missed ++ (if missed > 1 then " errors" else " error") ++
      "[/b red]"
  .marked ("[b green]" ++ toString tally.met ++ " ok[/b green]" ++ errors ++ " (" ++
    toString tally.total ++ " total)")

section Writing

variable {Unshown : Type} (render : Renderer Unshown)

/-- The text of a line as it is shown. -/
def Line.shown : Line → Except Unshown String
  | plain text => .ok text
  | marked text => render text

/-- Writes lines one after the other, up to the first that cannot be shown. -/
def write : List Line → Transcript × Option Unshown
  | [] => ([], none)
  | line :: rest =>
    match line.shown render with
    | .ok text =>
      let (later, unshown) := write rest
      (.output (text ++ "\n") :: later, unshown)
    | .error unshown => ([], some unshown)

/-- What is written of a trial, and why it ended early if it did. -/
abbrev Outcome (Unshown : Type) := Transcript × Option (Fault ⊕ Unshown)

variable [UnicodeData]

/-- Judges the cases of these lines, after others that gave this tally. -/
def judge (grammar : Grammar) (tally : Tally) : List (List Char) → Outcome Unshown
  | [] =>
    let (written, unshown) := write render [tally.summary]
    (written, unshown.map .inr)
  | line :: rest =>
    match Case.read line with
    | .error fault => ([], some (.inl fault))
    | .ok case =>
      let (verdict, grammar) := grammar.validate case.sentence case.rule
      let traced := Transcript.ofEvents verdict.events
      match verdict.result with
      | .error fault => (traced, some (.inl fault))
      | .ok valid =>
        match write render (case.report valid) with
        | (written, some unshown) => (traced ++ written, some (.inr unshown))
        | (written, none) =>
          let (later, ending) := judge grammar (tally.count (case.isMet valid)) rest
          (traced ++ written ++ later, ending)

/-- A trial of the commands for a smart home. -/
def run (cases : String) : Outcome Unshown :=
  let (later, ending) := judge render HomeCommands.grammar ⟨0, 0⟩ (caseLines cases)
  (Transcript.ofEvents HomeCommands.loaded.events ++ later, ending)

end Writing

end Bnf.Trial
