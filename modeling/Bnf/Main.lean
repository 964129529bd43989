import Bnf.CommandLine.Run
import Bnf.UnicodeData.Version14

/-!
# The program

Reads the arguments, the grammar file and the lines of the standard input, and writes what the
library says. Each line is answered before the next is read.
-/

namespace Bnf.Terminal

/-- Writes a piece of a transcript. -/
def write (settings : Trace.Settings) (piece : Piece) : IO Unit := do
  match piece with
  | .output text => IO.print text
  | .trace event => IO.print (settings.renderEvent event)
  | .diagnostic text => IO.eprint text
  (← IO.getStdout).flush

/-- Writes a transcript. -/
def writeAll (settings : Trace.Settings) (transcript : Transcript) : IO Unit :=
  transcript.forM (write settings)

/-- The number of a system error, which may be reported as its negative in 32 bits. -/
def errorNumber (code : UInt32) : Nat :=
  if code.toNat < 0x80000000 then code.toNat else 0x100000000 - code.toNat

/-- The cause of an error that the system reports on reading a file. -/
def openFailure : IO.Error → OpenFailure
  | .noFileOrDirectory .. => .noSuchFile
  | .permissionDenied .. => .notPermitted
  | .inappropriateType _ code details | .invalidArgument _ code details
  | .resourceExhausted _ code details =>
    match errorNumber code with
    | 20 => .notDirectory
    | 21 => .isDirectory
    | 36 => .nameTooLong
    | number => .other number details
  | error => .other 5 (toString error)

/-- The content of a file, or why it cannot be read. -/
def readFile (path : String) : IO (Except OpenFailure ByteArray) := do
  try
    return .ok (← IO.FS.readBinFile path)
  catch error => return .error (openFailure error)

/-- Answers the lines of the standard input until a line ends the conversation, and gives the code
with which the program ends. -/
partial def converse (settings : Trace.Settings) (rule : String) (grammar : Grammar) :
    IO UInt32 := do
  write settings Conversation.prompt
  let line ← (← IO.getStdin).getLine
  if line.isEmpty then
    write settings Conversation.endOfInput
    return 0
  let answer := Conversation.answer grammar rule line.toList
  writeAll settings answer.transcript
  match answer.result with
  | .error fault =>
    IO.eprintln fault.message
    return 1
  | .ok .exiting => return 0
  | .ok _ => converse settings rule answer.grammar

/-- Runs with these options, and gives the code with which the program ends. -/
def judge (options : CommandLine.Options) : IO UInt32 := do
  let content ← match options.path with
    | .ok (some path) => readFile path
    | _ => pure (.error .noSuchFile)
  let settings := options.settings
  match CommandLine.start options fun _ => content with
  | (written, .error (.exit code)) =>
    writeAll settings written
    return UInt32.ofNat code
  | (written, .error (.fault fault)) =>
    writeAll settings written
    IO.eprintln fault.message
    return 1
  | (written, .ok (rule, grammar)) =>
    writeAll settings (written ++ Conversation.welcome)
    converse settings rule grammar

/-- How the program is called. -/
def usage : String :=
  "usage: [-h] [-f FILE] [-c RULE] [-d DEBUG]"

end Bnf.Terminal

/-- Judges sentences by a grammar, as the arguments say. -/
def main (arguments : List String) : IO UInt32 :=
  match Bnf.CommandLine.request arguments with
  | .help => do
    IO.println Bnf.Terminal.usage
    return 0
  | .misuse => do
    IO.eprintln Bnf.Terminal.usage
    return 2
  | .judge options => Bnf.Terminal.judge options
