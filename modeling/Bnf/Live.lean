import Bnf.Grammar.Loading
import Bnf.Grammar.Validation

/-!
# Programs that show their trace at once

The operations of this library record their traces, and how much of a trace is shown is settled
later. The programs here do the same work in the other way. They change a session: they print a line
as soon as they come to it, if the level of the session allows it, they go one blank further in
while they match a rule, and they change the grammar of the session in place. A fault leaves the
session as it is at that moment, except that the indentation is always taken back.
-/

namespace Bnf

/-- A line that was printed, with its indentation, and the level from which on it is printed. -/
structure Trace.Line where
  level : Int
  text : String
  deriving Repr, DecidableEq

/-- What a program works on: how the trace is shown, what has been printed, and a grammar. -/
structure Session where
  settings : Trace.Settings
  printed : List Trace.Line
  grammar : Grammar
  deriving Repr, DecidableEq

/-- A program that works on a session and may fault. -/
abbrev Live := ExceptT Fault (StateM Session)

namespace Live

/-- What a program ends in, and the session that it leaves. -/
def on {α : Type} (program : Live α) (session : Session) : Except Fault α × Session :=
  program.run.run session

/-- Prints a note if its level does not exceed that of the session. -/
def note (note : Trace.Note) : Live Unit := do
  let session ← get
  if note.level ≤ session.settings.level then
    let blanks := List.replicate session.settings.indent.toNat ' '
    let line : Trace.Line := ⟨note.level, String.ofList blanks ++ note.text ++ "\n"⟩
    set { session with printed := session.printed ++ [line] }

/-- Moves what is printed from now on to the right, or to the left if the amount is negative. -/
def indent (amount : Int) : Live Unit :=
  modify fun session =>
    { session with settings.indent := session.settings.indent + amount }

/-- Runs a program one blank further in, and takes the blank back however the program ends. -/
def inside {α : Type} (program : Live α) : Live α := do
  indent 1
  try program
  finally indent (-1)

/-! ## Matching -/

variable [UnicodeData]

/-- Matches a symbol that demands one token. -/
def oneToken (tokens : List String) (symbol : Symbol) (accepts : String → Bool) (start : Int) :
    Live (Option Int) := do
  if start < tokens.length then
    match Matching.tokenAt? tokens start with
    | none => throw .beforeFirstToken
    | some token =>
      if accepts token then
        note (.matched token symbol)
        return some (start + 1)
      else
        note (.unmatched (some token) symbol)
        return none
  else
    note (.unmatched none symbol)
    return none

/-- Takes steps from a position as long as there are tokens left and a step advances. -/
def advance (step : Int → Live (Option Int)) (size : Nat) (start : Int) : Live Int :=
  if _hstart : start < size then do
    match ← step start with
    | none => return start
    | some next => if _hnext : start < next then advance step size next else return start
  else return start
termination_by (size - start).toNat

mutual
/-- Matches a symbol, given how to match a rule. -/
def matchSymbol (tokens : List String) (call : String → Int → Live (Option Int)) :
    Symbol → Int → Live (Option Int)
  | .terminal literal, start => oneToken tokens (.terminal literal) (· == literal) start
  | .charClass pattern, start =>
    oneToken tokens (.charClass pattern) (Matching.patternAccepts pattern) start
  | .reference name, start => call name start
  | .group alternatives, start => matchDefinition tokens call alternatives start
  | .unknown code, _ => do
    note (.unmatchable (.unknown code))
    return none
  | .optional body, _ => do
    note (.unmatchable (.optional body))
    return none
  | .repeated body, _ => do
    note (.unmatchable (.repeated body))
    return none
termination_by structural symbol => symbol

/-- Matches the symbols of a production one after the other, given how to match a rule. -/
def matchProduction (tokens : List String) (call : String → Int → Live (Option Int)) :
    List Symbol → Int → Live (Option Int)
  | [], start => return some start
  | symbol :: rest, start => do
    let next ←
      match symbol with
      | .repeated body => some <$> advance (matchSymbol tokens call body) tokens.length start
      | .optional body =>
        (fun next => some (next.getD start)) <$> matchSymbol tokens call body start
      | symbol => matchSymbol tokens call symbol start
    match next with
    | none => return none
    | some position => matchProduction tokens call rest position
termination_by structural production => production

/-- Matches the first production of a definition that matches, given how to match a rule. -/
def matchDefinition (tokens : List String) (call : String → Int → Live (Option Int)) :
    List (List Symbol) → Int → Live (Option Int)
  | [], _ => return none
  | production :: rest, start => do
    match ← matchProduction tokens call production start with
    | some finish => return some finish
    | none => matchDefinition tokens call rest start
termination_by structural definition => definition
end

/-- Matches a symbol as a production does, given how to match a rule. -/
def matchModified (tokens : List String) (call : String → Int → Live (Option Int))
    (symbol : Symbol) (start : Int) : Live (Option Int) :=
  match symbol with
  | .repeated body => some <$> advance (matchSymbol tokens call body) tokens.length start
  | .optional body => (fun next => some (next.getD start)) <$> matchSymbol tokens call body start
  | symbol => matchSymbol tokens call symbol start

/-- A production is matched symbol by symbol, each with its modifier. -/
theorem matchProduction_cons (tokens : List String) (call : String → Int → Live (Option Int))
    (symbol : Symbol) (rest : List Symbol) (start : Int) :
    matchProduction tokens call (symbol :: rest) start = (do
      match ← matchModified tokens call symbol start with
      | none => return none
      | some position => matchProduction tokens call rest position) := by
  cases symbol <;> rfl

/-- Matches the rule of a name, with at most `bound` rules inside of each other. -/
def matchNested (tokens : List String) : Nat → String → Int → Live (Option Int)
  | 0, name, _ => do
    match (← get).grammar.definition? name with
    | none => throw (.undefinedRule name)
    | some _ => throw .nestingExceeded
  | bound + 1, name, start => do
    match (← get).grammar.definition? name with
    | none => throw (.undefinedRule name)
    | some definition =>
      note (.entered name start)
      let finish ← inside (matchDefinition tokens (matchNested tokens bound) definition start)
      note (.left name finish)
      return finish

/-- Matches the rule of a name. -/
def matchRule (tokens : List String) (name : String) (start : Int) : Live (Option Int) := do
  let ruleCount := (← get).grammar.rules.size
  matchNested tokens (Matching.nestingBound ruleCount tokens.length start) name start

/-! ## Sentences and lines -/

/-- Whether a sentence is valid for a rule. The grammar of the session learns which rules are free
of recursion before the sentence is matched. -/
def validate (sentence rule : String) : Live Bool := do
  unless (← get).grammar.defines rule do
    throw (.undefinedRule rule)
  let (cycle, grammar) := (← get).grammar.cycleFrom rule
  modify fun session => { session with grammar }
  match cycle with
  | some cycle => throw (.recursiveRule cycle)
  | none =>
    let tokens := Grammar.words sentence
    return (← matchRule tokens rule 0) == some (tokens.length : Int)

/-- Adds a rule to the grammar of the session. The text of its definition is kept before it is
read. -/
def insert (name source : String) : Live Unit := do
  modify fun session =>
    { session with grammar.definitions := session.grammar.definitions.put name source }
  let definition ← ofExcept (Definition.read source.toList)
  modify fun session =>
    { session with
      grammar.rules := session.grammar.rules.put name definition
      grammar.acyclic := [] }

/-- Adds the rule that a line writes to the grammar of the session, and gives its name. -/
def readLine (line : String) : Live String := do
  note (.line line)
  match RuleLine.read? line.toList with
  | some (name, source) =>
    insert (String.ofList name) (String.ofList source)
    return String.ofList name
  | none => throw (.malformedLine line)

/-- Loads one more line into the grammar of the session, and gives the number of rules loaded. -/
def loadLine (count : Nat) (line : List Char) : Live Nat := do
  let text := Text.strip line
  if RuleLine.isSkipped text then
    pure count
  else
    try
      let _ ← readLine (String.ofList text)
      pure (count + 1)
    catch
      | .malformedLine _ =>
        note (.skipped (String.ofList text))
        pure count
      | fault => throw fault

/-- Loads lines into the grammar of the session, and gives the number of rules loaded. -/
def load (lines : List (List Char)) : Live Nat :=
  lines.foldlM loadLine 0

end Live

end Bnf
