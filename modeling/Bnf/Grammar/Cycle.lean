import Bnf.Grammar.Basic

/-!
# Recursive rules

A rule is recursive if its references lead back to it. `Grammar.cycleFrom` follows the references
from a rule depth first and in order, and gives the first chain of names that comes back to a name
on it. A name that has been searched without success is not searched again, also not by a later
search, as long as the rules stay the same. References to rules that are not defined lead nowhere.
-/

namespace Bnf.Grammar

/-- The number of rules that are not on a path. -/
def countOff (grammar : Grammar) (path : List String) : Nat :=
  grammar.rules.names.countP (· ∉ path)

/-- Going on to a rule that is defined and not on the path leaves fewer rules off the path. -/
theorem countOff_append_lt {grammar : Grammar} {path : List String} {name : String}
    {definition : Definition} (hdefinition : grammar.definition? name = some definition)
    (hpath : name ∉ path) : grammar.countOff (path ++ [name]) < grammar.countOff path := by
  have hmem : name ∈ grammar.rules.names := by
    rw [Dict.mem_names_iff, ← definition?, hdefinition]
    rfl
  obtain ⟨before, after, hnames⟩ := List.append_of_mem hmem
  have hle (names : List String) :
      names.countP (· ∉ path ++ [name]) ≤ names.countP (· ∉ path) :=
    List.countP_mono_left fun other _ h => by simp_all
  have hbefore := hle before
  have hafter := hle after
  have hleft : decide (name ∉ path ++ [name]) = false := by simp
  have hright : decide (name ∉ path) = true := by simpa using hpath
  simp only [countOff, hnames, List.countP_append, List.countP_cons, hleft, hright, reduceIte,
    Bool.false_eq_true]
  omega

/-- Searches the references of a name for a way back to the path that led to it, or to itself.
An error is the cycle that was found; otherwise the names that are now known to be free of
recursion are given. -/
def search (grammar : Grammar) (path acyclic : List String) (name : String) :
    Except (List String) (List String) :=
  if hpath : name ∈ path then .error (path.dropWhile (· ≠ name) ++ [name])
  else if name ∈ acyclic then .ok acyclic
  else match hdefinition : grammar.definition? name with
    | none => .ok acyclic
    | some definition => do
      let searched (acyclic : List String) (reference : String) :=
        have := countOff_append_lt hdefinition hpath
        grammar.search (path ++ [name]) acyclic reference
      return name :: (← (Definition.references definition).foldlM searched acyclic)
termination_by grammar.countOff path

/-- The first cycle that the references from a name lead to, if there is one. The grammar that is
given along knows what the search has found. -/
def cycleFrom (grammar : Grammar) (name : String) : Option (List String) × Grammar :=
  match grammar.search [] grammar.acyclic name with
  | .error cycle => (some cycle, grammar)
  | .ok acyclic => (none, { grammar with acyclic })

/-- A search for a cycle keeps the definitions. -/
@[simp]
theorem definitions_cycleFrom (grammar : Grammar) (name : String) :
    (grammar.cycleFrom name).2.definitions = grammar.definitions := by
  unfold cycleFrom
  split <;> rfl

/-- A search for a cycle keeps the rules. -/
@[simp]
theorem rules_cycleFrom (grammar : Grammar) (name : String) :
    (grammar.cycleFrom name).2.rules = grammar.rules := by
  unfold cycleFrom
  split <;> rfl

end Bnf.Grammar
