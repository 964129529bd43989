import Bnf.Grammar.Cycle
import Bnf.Matching
import Bnf.Text.Pieces

/-!
# Valid sentences

A sentence is valid for a rule if the rule matches all of its words. A rule that is not defined, or
from which a recursive rule can be reached, is refused whatever the sentence is.
-/

namespace Bnf.Grammar

variable [UnicodeData]

/-- Calls a rule of the grammar from a start position. -/
def call (grammar : Grammar) (tokens : List String) (name : String) (start : Int) :
    Traced (Option Int) :=
  Matching.call grammar.definition? tokens
    (Matching.nestingBound grammar.rules.size tokens.length start) name start

/-- The words of a sentence, which are the tokens to match. -/
def words (sentence : String) : List String :=
  (Text.words sentence.toList).map String.ofList

/-- Whether a sentence is valid for a rule. The grammar that is given along has the same rules and
knows which of them this has shown to be free of recursion. -/
def validate (grammar : Grammar) (sentence rule : String) : Traced Bool × Grammar :=
  if grammar.defines rule then
    match grammar.cycleFrom rule with
    | (some cycle, grammar) => (Traced.fail (.recursiveRule cycle), grammar)
    | (none, grammar) =>
      let tokens := words sentence
      (do return (← grammar.call tokens rule 0) == some (tokens.length : Int), grammar)
  else (Traced.fail (.undefinedRule rule), grammar)

/-- Of a grammar, matching knows the rules only, and not their order. -/
theorem call_congr {grammar other : Grammar} (h : grammar.definition? = other.definition?) :
    grammar.call = other.call := by
  have hsize : grammar.rules.size = other.rules.size := Dict.size_eq_of_names fun name => by
    rw [Dict.mem_names_iff, Dict.mem_names_iff, ← definition?, ← definition?, h]
  unfold call
  rw [h, hsize]

/-- The verdict on a sentence: an undefined or recursive rule is refused, and otherwise the rule has
to match all words. -/
theorem verdict_eq (grammar : Grammar) (sentence rule : String) :
    (grammar.validate sentence rule).1 =
      if grammar.defines rule then
        match (grammar.cycleFrom rule).1 with
        | some cycle => Traced.fail (.recursiveRule cycle)
        | none => do
          return (← grammar.call (words sentence) rule 0) == some ((words sentence).length : Int)
      else Traced.fail (.undefinedRule rule) := by
  unfold validate
  split
  · have hdefinition : (grammar.cycleFrom rule).2.definition? = grammar.definition? := by
      funext name
      rw [definition?, rules_cycleFrom, definition?]
    have hcall := call_congr hdefinition
    rcases hsearch : grammar.cycleFrom rule with ⟨_ | cycle, after⟩
    · rw [hsearch] at hcall
      simp only [hcall]
    · rfl
  · rfl

/-- Judging a sentence leaves what the search for a cycle leaves. -/
theorem grammar_validate (grammar : Grammar) (sentence rule : String) :
    (grammar.validate sentence rule).2 =
      if grammar.defines rule then (grammar.cycleFrom rule).2 else grammar := by
  unfold validate
  split
  · rcases grammar.cycleFrom rule with ⟨_ | cycle, after⟩ <;> rfl
  · rfl

end Bnf.Grammar
