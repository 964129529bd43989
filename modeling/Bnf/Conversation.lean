import Bnf.Grammar.Validation
import Bnf.Transcript

/-!
# Conversations

A conversation answers line after line whether the line is a valid sentence of a rule, until a line
is `exit` or no line is left. `Conversation.run` is a conversation over the lines of an input, and
`Conversation.listen` one that reads its input line by line. The step of both is
`Conversation.answer`.
-/

namespace Bnf

/-- The answer to one line. -/
inductive Reply where
  | exiting
  | unrecognised
  | success
  deriving Repr, DecidableEq

/-- The sentence that states an answer. -/
def Reply.message : Reply → String
  | exiting => "Exiting REPL..."
  | unrecognised => "Unrecognised command."
  | success => "Command executed successfully."

namespace Conversation

/-- What is written before the first line is read. -/
def welcome : Transcript :=
  [.output "Welcome to the Domolect 2.0 parser!\n",
   .output "Enter a command or type `exit` to quit.\n"]

/-- What is written before each line is read. -/
def prompt : Piece :=
  .output ">>> "

/-- What is written when no line is left. -/
def endOfInput : Piece :=
  .diagnostic "Error reading input stream: EOF reached.\n"

/-- A line without the carriage returns and line feeds at its end. -/
def trimLine (line : List Char) : List Char :=
  (line.reverse.dropWhile fun c => c == '\r' || c == '\n').reverse

variable [UnicodeData]

/-- The reply to a trimmed line. -/
def reply (grammar : Grammar) (rule : String) (line : String) : Traced Reply × Grammar :=
  if line = "exit" then (pure .exiting, grammar)
  else
    let (verdict, grammar) := grammar.validate line rule
    ((fun valid => if valid then .success else .unrecognised) <$> verdict, grammar)

/-- A reply together with all that is written for a line after its prompt. -/
structure Answer where
  transcript : Transcript
  result : Except Fault Reply
  grammar : Grammar

/-- The answer to a line as it was read. -/
def answer (grammar : Grammar) (rule : String) (line : List Char) : Answer :=
  let (reply, grammar) := reply grammar rule (String.ofList (trimLine line))
  let spoken : Transcript :=
    match reply.result with
    | .ok reply => [.output (reply.message ++ "\n")]
    | .error _ => []
  ⟨Transcript.ofEvents reply.events ++ spoken, reply.result, grammar⟩

/-- A conversation that has ended: what was written, whether it still counts as running, the fault
that ended it if one did, and the grammar. -/
structure Outcome where
  transcript : Transcript
  running : Bool
  fault : Option Fault
  grammar : Grammar

/-- The outcome with something written before it. -/
def Outcome.after (outcome : Outcome) (earlier : Transcript) : Outcome :=
  { outcome with transcript := earlier ++ outcome.transcript }

/-- Answers line after line. A fault escapes at once, and the conversation still counts as
running. -/
def converse (rule : String) (grammar : Grammar) : List (List Char) → Outcome
  | [] => ⟨[prompt, endOfInput], false, none, grammar⟩
  | line :: rest =>
    let answer := answer grammar rule line
    let written := prompt :: answer.transcript
    match answer.result with
    | .error fault => ⟨written, true, some fault, answer.grammar⟩
    | .ok .exiting => ⟨written, false, none, answer.grammar⟩
    | .ok _ => (converse rule answer.grammar rest).after written

/-- A conversation over the lines of an input. Without an input, or without a place for the output,
it does not begin. -/
def run (grammar : Grammar) (rule : String) (input : Option String) (hasOutput : Bool) : Outcome :=
  match input, hasOutput with
  | some input, true => (converse rule grammar (Text.lines input.toList)).after welcome
  | _, _ => ⟨[], false, some .missingStream, grammar⟩

end Conversation

end Bnf
