import Bnf.Proofs.History
import Bnf.Proofs.RoundTrip

/-!
# Modifiers do not stack

At most one modifier is taken off a token, and what is left is read as a symbol without one. So in a
definition that was read from a text, no modified symbol is modified again
(`Definition.unstacked_tree`). This is true of all rules of a grammar after every history.
-/

namespace Bnf

variable [UnicodeData]

/-- The symbol has no modifier of its own. -/
def Symbol.IsBase : Symbol → Prop
  | .optional _ | .repeated _ => False
  | .terminal _ | .reference _ | .charClass _ | .unknown _ | .group _ => True

/-- No modifier modifies a modified symbol, neither the symbol itself nor one inside of it. -/
inductive Symbol.Unstacked : Symbol → Prop where
  | terminal (literal) : Symbol.Unstacked (.terminal literal)
  | reference (name) : Symbol.Unstacked (.reference name)
  | charClass (pattern) : Symbol.Unstacked (.charClass pattern)
  | unknown (code) : Symbol.Unstacked (.unknown code)
  | group {alternatives : Definition}
      (h : ∀ production ∈ alternatives, ∀ symbol ∈ production, Symbol.Unstacked symbol) :
      Symbol.Unstacked (.group alternatives)
  | optional {body} (hbase : Symbol.IsBase body) (h : Symbol.Unstacked body) :
      Symbol.Unstacked (.optional body)
  | repeated {body} (hbase : Symbol.IsBase body) (h : Symbol.Unstacked body) :
      Symbol.Unstacked (.repeated body)

/-- In a definition, no modifier modifies a modified symbol. -/
def Definition.Unstacked (definition : Definition) : Prop :=
  ∀ production ∈ definition, ∀ symbol ∈ production, Symbol.Unstacked symbol

/-- What is left of a token without its modifier is read as a symbol without a modifier. -/
theorem Symbol.unstacked_tree_base {token : List Char}
    (h : ∀ inside : List Char, inside.length < token.length →
      Definition.Unstacked (Definition.tree inside)) :
    (Symbol.treeBase token).IsBase ∧ (Symbol.treeBase token).Unstacked := by
  have hreading := Symbol.base_tree_cases token
  generalize Symbol.treeBase token = symbol at hreading
  cases hreading with
  | terminal _ => exact ⟨trivial, .terminal _⟩
  | reference _ => exact ⟨trivial, .reference _⟩
  | @group inside hinside =>
      have hinterior := Nesting.interior_eq_some_iff.2 ⟨rfl, hinside⟩
      exact ⟨trivial, .group (h inside (Nesting.length_lt_of_interior? hinterior))⟩
  | charClass _ => exact ⟨trivial, .charClass _⟩
  | unknown => exact ⟨trivial, .unknown _⟩

/-- A token is read with one modifier at most. -/
theorem Symbol.unstacked_tree {token : List Char}
    (h : ∀ inside : List Char, inside.length < token.length →
      Definition.Unstacked (Definition.tree inside)) : (Symbol.tree token).Unstacked := by
  have hshorter : ∀ inside : List Char, inside.length < token.dropLast.length →
      Definition.Unstacked (Definition.tree inside) := by
    intro inside hinside
    rw [List.length_dropLast] at hinside
    exact h inside (by omega)
  rw [Symbol.tree_eq]
  split
  · obtain ⟨hbase, hunstacked⟩ := Symbol.unstacked_tree_base hshorter
    exact .repeated hbase hunstacked
  · obtain ⟨hbase, hunstacked⟩ := Symbol.unstacked_tree_base hshorter
    exact .optional hbase hunstacked
  · exact (Symbol.unstacked_tree_base h).2

/-- No text writes a definition with a modifier of a modified symbol. -/
theorem Definition.unstacked_tree (text : List Char) :
    Definition.Unstacked (Definition.tree text) := by
  rw [Definition.tree_eq_map]
  intro production hproduction symbol hsymbol
  obtain ⟨alternative, halternative, rfl⟩ := List.mem_map.1 hproduction
  obtain ⟨token, htoken, rfl⟩ := List.mem_map.1 hsymbol
  -- The inside of a group is shorter than its token, which is no longer than the text.
  refine Symbol.unstacked_tree fun inside hinside => ?_
  have hlength := Nesting.length_le_of_mem_tokens htoken
  have hmore := Nesting.length_le_of_mem_alternatives halternative
  exact Definition.unstacked_tree inside
termination_by text.length

/-- A definition that was read is unstacked. -/
theorem Definition.unstacked_read {text : List Char} {definition : Definition}
    (h : Definition.read text = .ok definition) : Definition.Unstacked definition := by
  rw [Definition.read_eq_checked, checked_eq_ok_iff] at h
  rw [← h.2]
  exact Definition.unstacked_tree text

/-- In a consistent grammar, no modifier modifies a modified symbol. -/
theorem Grammar.Consistent.unstacked {grammar : Grammar} (h : grammar.Consistent) {name : String}
    {definition : Definition} (hdefinition : grammar.definition? name = some definition) :
    Definition.Unstacked definition := by
  obtain ⟨source, hsource⟩ := h.written name definition hdefinition
  exact Definition.unstacked_read hsource

end Bnf
