import Bnf.CommandLine.Arguments
import Bnf.Conversation
import Bnf.Grammar.File

/-!
# Running from the command line

A run loads a grammar, announces the file and the rule, and holds a conversation. `start` does all
that comes before the conversation, and `run` is the whole. If the rule is not defined, the run ends
with code 1. Arguments that cannot be understood end it with code 2. An option that is left blank is
a fault where its value is needed: the file to load it, the rule to look it up, and the level as
soon as there is an event to show or not.
-/

namespace Bnf.CommandLine

/-- How a run ends. -/
inductive Ending where
  | exit (code : Nat)
  | fault (fault : Fault)
  deriving Repr, DecidableEq

variable [UnicodeData]

/-- The settings of the trace. A blank level shows no more than no level. -/
def Options.settings (options : Options) : Trace.Settings :=
  match options.level with
  | .given level => ⟨level, 0⟩
  | .blank => ⟨0, 0⟩

/-- The name under which the grammar file is announced. -/
def fileName (file : Option String) : String :=
  file.getD HomeCommands.fileName

/-- The file to load, or none for the commands for a smart home. A blank one cannot be loaded. -/
def Options.path (options : Options) : Except Fault (Option String) :=
  match options.file with
  | none => .ok none
  | some (.given path) => .ok (some path)
  | some .blank => .error .blankFile

/-- Loads the grammar of a file, or the commands for a smart home if there is none. -/
def loadFile (files : FileReader) : Option String → Loaded × Transcript
  | some path => Grammar.empty.loadFrom files path
  | none => (HomeCommands.loaded, HomeCommands.loaded.transcript)

/-- Whether the level is blank, so that no event can be compared with it. -/
def Options.cannotTrace (options : Options) : Bool :=
  options.level == .blank

/-- What is written after a grammar has been loaded from a file. Unless the level is zero or blank,
the grammar is printed. -/
def Options.announcement (options : Options) (file : String) (grammar : Grammar) : Transcript :=
  .output ("Loaded BNF rules from " ++ file ++ "\n") ::
    (if options.settings.level = 0 then []
     else grammar.printout.map fun line => .output (line ++ "\n"))

/-- What is written before a conversation, and the rule and the grammar to hold it about, or how the
run ends without one. -/
def start (options : Options) (files : FileReader) :
    Transcript × Except Ending (String × Grammar) :=
  match options.path with
  | .error fault => ([], .error (.fault fault))
  | .ok path =>
    let file := fileName path
    let (loaded, written) := loadFile files path
    if options.cannotTrace && !loaded.events.isEmpty then ([], .error (.fault .blankLevel))
    else match loaded.result with
    | .error fault => (written, .error (.fault fault))
    | .ok _ =>
      let written := written ++ options.announcement file loaded.grammar
      match options.rule with
      | .blank => (written, .error (.fault .blankRule))
      | .given rule =>
        if rule ∈ loaded.grammar.names then
          (written ++ [.output ("Parsing against rule: " ++ rule ++ "\n")],
           .ok (rule, loaded.grammar))
        else
          (written ++ [.diagnostic ("Rule " ++ rule ++ " not found in " ++ file ++ "\n")],
           .error (.exit 1))

/-- A run that has ended: what was written, how the trace of it is shown, and how it ended. -/
structure Outcome where
  transcript : Transcript
  settings : Trace.Settings
  ending : Ending

/-- A run with these options over the lines of an input. -/
def judge (options : Options) (files : FileReader) (input : String) : Outcome :=
  match start options files with
  | (written, .error ending) => ⟨written, options.settings, ending⟩
  | (written, .ok (rule, grammar)) =>
    let outcome := Conversation.run grammar rule (some input) true
    ⟨written ++ outcome.transcript, options.settings,
      match outcome.fault with
      | some fault => .fault fault
      | none => .exit 0⟩

/-- A run with these arguments. Help and the complaint about a mistake are no part of the
outcome. -/
def run (arguments : List String) (files : FileReader) (input : String) : Outcome :=
  match request arguments with
  | .help => ⟨[], ⟨0, 0⟩, .exit 0⟩
  | .misuse => ⟨[], ⟨0, 0⟩, .exit 2⟩
  | .judge options => judge options files input

end Bnf.CommandLine
