import Bnf.HomeCommands
import Bnf.Text.Numeral

/-!
# Command line arguments

The arguments say from which file to load a grammar (`-f`, `--file`), which rule to judge by (`-c`,
`--rule`) and how much of the trace to show (`-d`, `--debug`), or ask for help (`-h`, `--help`). The
value of an option is the next argument, or follows a short name directly or after an equals sign,
or a long name after an equals sign. A long name may be cut short as long as no other name begins
so. An argument that looks like a negative number or contains a space is not an option. The attached
value `--` leaves an option without a value.

Arguments are read in two steps. `Word.ofArgument?` tells options from values by the form of each
argument alone, up to an argument `--`. `interpret` then takes the options in order.
-/

namespace Bnf.CommandLine

/-- The options. -/
inductive Flag where
  | help
  | file
  | rule
  | debug
  deriving Repr, DecidableEq

/-- The names of the options. -/
def flagNames : List (List Char × Flag) :=
  [("-h".toList, .help), ("--help".toList, .help), ("-f".toList, .file), ("--file".toList, .file),
   ("-c".toList, .rule), ("--rule".toList, .rule), ("-d".toList, .debug),
   ("--debug".toList, .debug)]

/-- A text that is attached to the name of an option, and whether the name is a short one. -/
structure Attached where
  toShort : Bool
  text : List Char
  deriving Repr, DecidableEq

/-- What an argument is by its form. -/
inductive Word where
  /-- An option, possibly with a value attached. -/
  | option (flag : Flag) (attached : Option Attached)
  /-- A value for an option before it. -/
  | value (text : String)
  /-- An option that does not exist, or an argument that can be no value. -/
  | stray
  deriving Repr, DecidableEq

variable [UnicodeData]

/-- Whether a text is a minus sign and a number, with or without a decimal point. A line feed may
follow. -/
def isNegativeNumber (text : List Char) : Bool :=
  match text with
  | '-' :: rest =>
    let isDigit (c : Char) := UnicodeData.isDecimalDigit c
    let ends (text : List Char) := text.isEmpty || text == ['\n']
    let after := rest.dropWhile isDigit
    match after with
    | '.' :: fraction => fraction.head?.any isDigit && ends (fraction.dropWhile isDigit)
    | _ => rest.head?.any isDigit && ends after
  | _ => false

/-- The option that a text before an equals sign names in full or cuts short. Nothing is given if
several names begin so, and no option if none does. -/
def abbreviated? (text : List Char) : Option (Option Word) :=
  let name := text.takeWhile (· ≠ '=')
  let attached : Option Attached :=
    match text.dropWhile (· ≠ '=') with
    | [] => none
    | _ :: value => some ⟨false, value⟩
  match flagNames.filter fun (full, _) => name.isPrefixOf full with
  | [] => some none
  | [(_, flag)] => some (some (.option flag attached))
  | _ => none

/-- What an argument is that begins with a minus sign and is no full name of an option. Nothing is
given for a long name that could be cut short from several. -/
def Word.ofDashed? (text : List Char) : Option Word :=
  let short := (flagNames.lookup (text.take 2)).map fun flag =>
    Word.option flag (some ⟨true, text.drop 2⟩)
  let name := text.takeWhile (· ≠ '=')
  let other :=
    if isNegativeNumber text ∨ ' ' ∈ text then Word.value (String.ofList text) else .stray
  match flagNames.lookup name, text.dropWhile (· ≠ '=') with
  | some flag, _ :: attached => some (.option flag (some ⟨name.length = 2, attached⟩))
  | _, _ =>
    if "--".toList.isPrefixOf text then (abbreviated? text).map (·.getD other)
    else some (short.getD other)

/-- What an argument is, or nothing if it is ambiguous. -/
def Word.ofArgument? (argument : String) : Option Word :=
  let text := argument.toList
  match flagNames.lookup text with
  | some flag => some (.option flag none)
  | none =>
    if text = ['-'] ∨ text.head? ≠ some '-' then some (.value argument) else Word.ofDashed? text

/-- What the arguments are. The argument `--` ends the options, and no value may follow it. -/
def words? (arguments : List String) : Option (List Word) := do
  let read ← (arguments.takeWhile (· ≠ "--")).mapM Word.ofArgument?
  return if "--" ∈ arguments then read ++ [.stray] else read

/-- The value of an option that is given, or left out after the name of the option. -/
inductive Setting (α : Type) where
  | given (value : α)
  | blank
  deriving Repr, DecidableEq

/-- What a text gives as the value of an option, if it is acceptable. -/
def Setting.read {α : Type} (text : List Char) (value? : Option α) : Option (Setting α) :=
  if text = "--".toList then some .blank else value?.map .given

/-- What to load, by which rule to judge, and how much of the trace to show. Without a file, the
commands for a smart home are loaded. -/
structure Options where
  file : Option (Setting String)
  rule : Setting String
  level : Setting Int
  deriving Repr, DecidableEq

/-- The options if none is given. -/
def Options.default : Options :=
  ⟨none, .given HomeCommands.startRule, .given 0⟩

/-- The options with one of them set as a text says, if its value is acceptable. -/
def Options.set? (options : Options) (flag : Flag) (text : String) : Option Options :=
  match flag with
  | .help => none
  | .file =>
    (Setting.read text.toList (some text)).map fun file => { options with file := some file }
  | .rule => (Setting.read text.toList (some text)).map fun rule => { options with rule }
  | .debug =>
    (Setting.read text.toList (Text.integer? text.toList)).map fun level => { options with level }

/-- What the arguments ask for. -/
inductive Request where
  | help
  | misuse
  | judge (options : Options)
  deriving Repr, DecidableEq

/-- Whether the text attached to a short call for help is a row of short options in order, given
whether a value follows. An option that takes a value must have it, and ends the row. -/
def clusterIsSound (valueFollows : Bool) : List Char → Bool
  | [] => false
  | c :: rest =>
    match flagNames.lookup ['-', c] with
    | none => false
    | some .help => rest.isEmpty || clusterIsSound valueFollows rest
    | some _ => !rest.isEmpty || valueFollows

/-- Whether the first of these words is a value. -/
def valueFollows : List Word → Bool
  | .value _ :: _ => true
  | _ => false

/-- Takes the options in order. A call for help or a mistake decides as soon as it is met, while a
surplus argument is a mistake only after all options. -/
def interpret (options : Options) (surplus : Bool) : List Word → Request
  | [] => if surplus then .misuse else .judge options
  | .value _ :: rest | .stray :: rest => interpret options true rest
  | .option .help none :: _ => .help
  | .option .help (some attached) :: rest =>
    if attached.toShort && clusterIsSound (valueFollows rest) attached.text then .help else .misuse
  | .option flag (some attached) :: rest =>
    match options.set? flag (String.ofList attached.text) with
    | some options => interpret options surplus rest
    | none => .misuse
  | .option flag none :: .value value :: rest =>
    match options.set? flag value with
    | some options => interpret options surplus rest
    | none => .misuse
  | .option _ none :: _ => .misuse

/-- What arguments ask for. An ambiguous argument is a mistake, even after a call for help. -/
def request (arguments : List String) : Request :=
  match words? arguments with
  | some words => interpret Options.default false words
  | none => .misuse

end Bnf.CommandLine
