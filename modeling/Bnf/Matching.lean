import Bnf.CharSet
import Bnf.Definition.Basic
import Bnf.Traced

/-!
# Matching token sequences

A definition matches the tokens from a start position up to a finish position, or does not match.
The matcher commits to the first production that matches, takes an optional symbol whenever it can
and repeats a symbol as often as it can, and never takes such a choice back. A symbol repeats only
as long as it makes progress. `Symbol.matchAt`, `Production.matchAt` and `Definition.matchAt` are
the matcher, given how to call a rule by its name.

Positions count from the first token. A negative position is counted from the end, so that -1 is the
last token, and a match may run from there across the end to the first token. There is no token
before the one that is as far from the end as there are tokens.

`Matching.call` calls a rule and bounds how many rules may be entered inside of each other. An
answer does not depend on the bound, but a match that needs more ends in a fault.
`Matching.nestingBound` is a bound that a match exceeds only if it would never end: it allows each
rule once at each position.
-/

namespace Bnf

variable [UnicodeData]

namespace Matching

/-- The token at a position, negative positions being counted from the end. -/
def tokenAt? (tokens : List String) (position : Int) : Option String :=
  if 0 ≤ position then tokens[position.toNat]?
  else if 0 ≤ tokens.length + position then tokens[(tokens.length + position).toNat]?
  else none

/-- Matches a symbol that demands one token. -/
def oneToken (tokens : List String) (symbol : Symbol) (accepts : String → Bool) (start : Int) :
    Traced (Option Int) :=
  if start < tokens.length then
    match tokenAt? tokens start with
    | none => Traced.fail .beforeFirstToken
    | some token =>
      if accepts token then do
        Traced.record (.matched token symbol)
        return some (start + 1)
      else do
        Traced.record (.unmatched (some token) symbol)
        return none
  else do
    Traced.record (.unmatched none symbol)
    return none

/-- Whether a token consists of one character of the set that a pattern writes. -/
def patternAccepts (pattern : String) (token : String) : Bool :=
  match CharSet.read? pattern.toList with
  | some set => set.accepts token
  | none => false

/-- Takes steps from a position as long as there are tokens left and a step advances, and gives the
position reached. -/
def advance (step : Int → Traced (Option Int)) (size : Nat) (start : Int) : Traced Int :=
  if _hstart : start < size then do
    match ← step start with
    | none => return start
    | some next => if _hnext : start < next then advance step size next else return start
  else return start
termination_by (size - start).toNat

end Matching

mutual
/-- Matches a symbol. Modifiers are the business of the production that the symbol stands in: by
itself a modified symbol, like an unknown one, matches nothing. -/
def Symbol.matchAt (tokens : List String) (call : String → Int → Traced (Option Int)) :
    Symbol → Int → Traced (Option Int)
  | .terminal literal, start =>
    Matching.oneToken tokens (.terminal literal) (· == literal) start
  | .charClass pattern, start =>
    Matching.oneToken tokens (.charClass pattern) (Matching.patternAccepts pattern) start
  | .reference name, start => call name start
  | .group alternatives, start => Definition.matchAt tokens call alternatives start
  | .unknown code, _ => do
    Traced.record (.unmatchable (.unknown code))
    return none
  | .optional body, _ => do
    Traced.record (.unmatchable (.optional body))
    return none
  | .repeated body, _ => do
    Traced.record (.unmatchable (.repeated body))
    return none
termination_by structural symbol => symbol

/-- Matches the symbols of a production one after the other. -/
def Production.matchAt (tokens : List String) (call : String → Int → Traced (Option Int)) :
    List Symbol → Int → Traced (Option Int)
  | [], start => return some start
  | symbol :: rest, start => do
    let next ←
      match symbol with
      | .repeated body =>
        some <$> Matching.advance (Symbol.matchAt tokens call body) tokens.length start
      | .optional body =>
        (fun next => some (next.getD start)) <$> Symbol.matchAt tokens call body start
      | symbol => Symbol.matchAt tokens call symbol start
    match next with
    | none => return none
    | some position => Production.matchAt tokens call rest position
termination_by structural production => production

/-- Matches the first production of a definition that matches. -/
def Definition.matchAt (tokens : List String) (call : String → Int → Traced (Option Int)) :
    List (List Symbol) → Int → Traced (Option Int)
  | [], _ => return none
  | production :: rest, start => do
    match ← Production.matchAt tokens call production start with
    | some finish => return some finish
    | none => Definition.matchAt tokens call rest start
termination_by structural definition => definition
end

/-- Matches a symbol as a production does: a repeated symbol as often as it advances, an optional
one if it matches, and any other exactly once. -/
def Symbol.matchModified (tokens : List String) (call : String → Int → Traced (Option Int))
    (symbol : Symbol) (start : Int) : Traced (Option Int) :=
  match symbol with
  | .repeated body =>
    some <$> Matching.advance (Symbol.matchAt tokens call body) tokens.length start
  | .optional body => (fun next => some (next.getD start)) <$> Symbol.matchAt tokens call body start
  | symbol => Symbol.matchAt tokens call symbol start

/-- A production is matched symbol by symbol, each with its modifier. -/
theorem Production.matchAt_cons (tokens : List String) (call : String → Int → Traced (Option Int))
    (symbol : Symbol) (rest : List Symbol) (start : Int) :
    Production.matchAt tokens call (symbol :: rest) start = (do
      match ← Symbol.matchModified tokens call symbol start with
      | none => return none
      | some position => Production.matchAt tokens call rest position) := by
  cases symbol <;> rfl

namespace Matching

/-- Calls the rule of a name, with at most `bound` rules inside of each other. -/
def call (rules : String → Option Definition) (tokens : List String) :
    Nat → String → Int → Traced (Option Int)
  | 0, name, _ =>
    match rules name with
    | none => Traced.fail (.undefinedRule name)
    | some _ => Traced.fail .nestingExceeded
  | bound + 1, name, start =>
    match rules name with
    | none => Traced.fail (.undefinedRule name)
    | some definition => do
      Traced.record (.entered name start)
      let finish ← Traced.nested
        (Definition.matchAt tokens (call rules tokens bound) definition start)
      Traced.record (.left name finish)
      return finish

/-- As many rules as a match from this start can enter inside of each other without meeting the
same rule at the same position again. -/
def nestingBound (ruleCount tokenCount : Nat) (start : Int) : Nat :=
  ruleCount * ((tokenCount - start).toNat + 1)

end Matching

end Bnf
