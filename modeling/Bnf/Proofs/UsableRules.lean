import Bnf.Proofs.RecursionGuard
import Mathlib

/-!
# Usable rules

A name is usable if no recursive name and no undefined name can be reached from it. What a usable
name refers to is usable again, and references do not lead on forever, so that there is an induction
over usable names (`usable_induction`). The bound on the nesting is not felt either: a rule that is
free of recursion matches what its definition matches (`result_call`).
-/

namespace Bnf.Grammar

/-- All names that can be reached from a name are defined, and none of them is recursive. -/
structure Usable (grammar : Grammar) (name : String) : Prop where
  free : grammar.FreeOfRecursion name
  complete : ∀ other, grammar.Reaches name other → grammar.defines other = true

variable {grammar : Grammar}

/-- What a usable name refers to is usable. -/
theorem Usable.refers {name reference : String} (h : grammar.Usable name)
    (hrefers : grammar.Refers name reference) : grammar.Usable reference where
  free := h.free.refers hrefers
  complete other hreaches := h.complete other (.head hrefers hreaches)

/-- A usable name has a definition. -/
theorem Usable.exists_definition {name : String} (h : grammar.Usable name) :
    ∃ definition, grammar.definition? name = some definition :=
  Option.isSome_iff_exists.1 (h.complete name .refl)

/-- A property holds of a name free of recursion if it is carried to each such name from all that
the name refers to. -/
theorem free_induction {motive : String → Prop}
    (step : ∀ name, grammar.FreeOfRecursion name →
      (∀ reference, grammar.Refers name reference → motive reference) → motive name)
    {name : String} (h : grammar.FreeOfRecursion name) : motive name := by
  -- The induction is on the number of rules that are not on the way to the name.
  have hdescends : ∀ bound active name, grammar.Descends active name →
      grammar.rules.size ≤ bound + active.length → motive name := by
    intro bound
    induction bound with
    | zero =>
        intro active name hdescends hbound
        refine step name hdescends.free fun reference hrefers => ?_
        have hlength := (hdescends.refers hrefers).allows.2
        rw [List.length_cons] at hlength
        omega
    | succ bound ih =>
        intro active name hdescends hbound
        refine step name hdescends.free fun reference hrefers => ?_
        refine ih (name :: active) reference (hdescends.refers hrefers) ?_
        rw [List.length_cons]
        omega
  exact hdescends grammar.rules.size [] name (descends_nil h) (Nat.le_add_right _ _)

/-- A property holds of a usable name if it is carried to each usable name, with its definition,
from all that the definition refers to. -/
theorem usable_induction {motive : String → Prop}
    (step : ∀ name definition, grammar.Usable name → grammar.definition? name = some definition →
      (∀ reference ∈ Definition.references definition, motive reference) → motive name)
    {name : String} (h : grammar.Usable name) : motive name := by
  refine free_induction (motive := fun name => grammar.Usable name → motive name) ?_ h.free h
  intro name _ ih husable
  obtain ⟨definition, hdefinition⟩ := husable.exists_definition
  refine step name definition husable hdefinition fun reference hreference => ?_
  have hrefers := refers_of_definition hdefinition hreference
  exact ih reference hrefers (husable.refers hrefers)

/-- A name is usable if its definition refers to usable names only: none of these can lead back to
it, since it would then lead back to itself. -/
theorem usable_of_references {name : String} {definition : Definition}
    (hdefinition : grammar.definition? name = some definition)
    (h : ∀ reference ∈ Definition.references definition, grammar.Usable reference) :
    grammar.Usable name := by
  have hrefers : ∀ reference, grammar.Refers name reference → grammar.Usable reference := by
    intro reference hreference
    obtain ⟨found, hfound, hmem⟩ := hreference
    rw [hdefinition] at hfound
    cases hfound
    exact h reference hmem
  constructor
  · refine free_of_references fun reference hreference =>
      ⟨(hrefers reference hreference).free, fun hback => ?_⟩
    exact (hrefers reference hreference).free reference .refl (.tail' hback hreference)
  · intro other hreaches
    rcases Relation.ReflTransGen.cases_head hreaches with rfl | ⟨reference, hreference, hrest⟩
    · exact defines_of_definition hdefinition
    · exact (hrefers reference hreference).complete other hrest

/-- Whether each of these names is defined and refers only to names after it. -/
def inOrder (rules : String → Option Definition) : List String → Bool
  | [] => true
  | name :: rest =>
    ((rules name).any fun definition => (Definition.references definition).all rest.contains) &&
      inOrder rules rest

/-- Names that refer only to names after them are usable. -/
theorem usable_of_in_order {names : List String} (h : inOrder grammar.definition? names = true) :
    ∀ name ∈ names, grammar.Usable name := by
  induction names with
  | nil => exact List.forall_mem_nil _
  | cons name rest ih =>
      rw [inOrder, Bool.and_eq_true, Option.any_eq_true] at h
      obtain ⟨⟨definition, hdefinition, hreferences⟩, hrest⟩ := h
      refine List.forall_mem_cons.2 ⟨usable_of_references hdefinition fun reference hmem => ?_,
        ih hrest⟩
      exact ih hrest reference (List.contains_iff_mem.1 (List.all_eq_true.1 hreferences _ hmem))

/-- Names that are defined and refer to each other only lead to defined names among them. -/
theorem mem_of_reaches (names : List String)
    (h : (names.all fun name => (grammar.definition? name).any fun definition =>
      (Definition.references definition).all names.contains) = true)
    {name : String} (hname : name ∈ names) :
    ∀ other, grammar.Reaches name other → other ∈ names := by
  intro other hreaches
  induction hreaches with
  | refl => exact hname
  | tail _ hrefers ih =>
      obtain ⟨definition, hfind, hreferences⟩ :=
        (Option.any_eq_true _ _).1 (List.all_eq_true.1 h _ ih)
      obtain ⟨found, hfound, hreference⟩ := hrefers
      rw [hfind] at hfound
      cases hfound
      exact List.contains_iff_mem.1 (List.all_eq_true.1 hreferences _ hreference)

/-- If names are defined and refer to each other only, nothing undefined can be reached from
them. -/
theorem complete_of_closed (names : List String)
    (h : (names.all fun name => (grammar.definition? name).any fun definition =>
      (Definition.references definition).all names.contains) = true)
    {name : String} (hname : name ∈ names) :
    ∀ other, grammar.Reaches name other → grammar.defines other = true := by
  intro other hreaches
  have hmem := mem_of_reaches names h hname other hreaches
  obtain ⟨definition, hfind, -⟩ := (Option.any_eq_true _ _).1 (List.all_eq_true.1 h other hmem)
  exact defines_of_definition hfind

variable {tokens : List String}

variable [UnicodeData]

/-- Matching a name free of recursion notes that the rule is entered, matches its definition one
rule further inside, where rules are called in the same way, and notes that the rule is left. -/
theorem call_of_definition {name : String} {definition : Definition}
    (h : grammar.FreeOfRecursion name) (hdefinition : grammar.definition? name = some definition)
    (start : Int) : grammar.call tokens name start = (do
      Traced.record (.entered name start)
      let finish ← Traced.nested
        (Definition.matchAt tokens (grammar.call tokens) definition start)
      Traced.record (.left name finish)
      return finish) := by
  have hagree : Matching.AgreeOn (Matching.call grammar.definition? tokens grammar.rules.size)
      (grammar.call tokens) (Definition.references definition) start := by
    intro reference hreference position _
    have hfree := h.refers (refers_of_definition hdefinition hreference)
    exact (call_eq_of_le hfree (length_le_nestingBound position) position).symm
  -- A bound of one more than there are rules leaves as much as there are rules inside.
  have hcall : grammar.call tokens name start =
      Matching.call grammar.definition? tokens (grammar.rules.size + 1) name start :=
    (call_eq_of_le h (length_le_nestingBound start) start).trans
      (call_eq_of_le h (Nat.le_succ _) start).symm
  rw [hcall, Matching.call, hdefinition]
  simp only [Definition.match_congr (Matching.call_forward _ _) hagree]

/-- Matching a name free of recursion ends as matching its definition does. -/
theorem result_call {name : String} {definition : Definition} (h : grammar.FreeOfRecursion name)
    (hdefinition : grammar.definition? name = some definition) (start : Int) :
    (grammar.call tokens name start).result =
      (Definition.matchAt tokens (grammar.call tokens) definition start).result := by
  rw [call_of_definition h hdefinition]
  simp only [Traced.result_bind, Traced.result_record, Traced.result_nested]
  cases (Definition.matchAt tokens (grammar.call tokens) definition start).result <;> rfl

/-- The verdict of a defined name that is free of recursion is whether it matches all words. -/
theorem verdict_of_free (hknows : grammar.Knows grammar.acyclic) {name : String}
    (hdefined : grammar.defines name = true) (hfree : grammar.FreeOfRecursion name)
    (sentence : String) :
    (grammar.validate sentence name).1 = (do
      return (← grammar.call (words sentence) name 0) == some ((words sentence).length : Int)) := by
  rw [verdict_eq, if_pos hdefined, cycleFrom_of_free hknows hfree]

/-- Its verdict ends as its match of the words does. -/
theorem result_validate (hknows : grammar.Knows grammar.acyclic) {name : String}
    (hdefined : grammar.defines name = true) (hfree : grammar.FreeOfRecursion name)
    (sentence : String) :
    (grammar.validate sentence name).1.result =
      (grammar.call (words sentence) name 0).result.map
        (· == some ((words sentence).length : Int)) := by
  rw [verdict_of_free hknows hdefined hfree, Traced.result_bind]
  cases (grammar.call (words sentence) name 0).result <;> rfl

/-- A sentence is valid for a defined name that is free of recursion exactly if the name matches all
of its words. -/
theorem validate_eq_true_iff (hknows : grammar.Knows grammar.acyclic) {name : String}
    (hdefined : grammar.defines name = true) (hfree : grammar.FreeOfRecursion name)
    (sentence : String) :
    (grammar.validate sentence name).1.result = .ok true ↔
      (grammar.call (words sentence) name 0).result =
        .ok (some ((words sentence).length : Int)) := by
  rw [result_validate hknows hdefined hfree]
  cases (grammar.call (words sentence) name 0).result <;> simp [Except.map]

end Bnf.Grammar
