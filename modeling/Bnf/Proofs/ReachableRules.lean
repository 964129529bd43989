import Bnf.Proofs.RuleLine
import Bnf.Proofs.UsableRules
import Bnf.UnicodeData.Version14
import Mathlib

/-!
# Only reachable rules count

Whatever a grammar answers about a name is a matter of the definitions that can be reached from the
name. Two grammars that agree on these (`AgreesFrom`) search alike for a cycle and judge every
sentence alike, with the same trace, whatever other rules they have, in which order their rules
stand and what they remember (`AgreesFrom.verdict_eq`). An operation changes no other rules than
those it names (`definition_apply`), so that changes of rules that cannot be reached from a name go
unnoticed there. Both together are `reachable_rules_decide`.
-/

namespace Bnf.Grammar

section

/-- All names that can be reached from a name in the first grammar have the same definition in both,
or none in both. -/
def AgreesFrom (grammar other : Grammar) (name : String) : Prop :=
  ∀ reached, grammar.Reaches name reached → grammar.definition? reached = other.definition? reached

variable {grammar other : Grammar}

/-! ## References and definitions -/

/-- If what two grammars have for the definition of a name is related, the name is undefined in
both, or they have related definitions of it. -/
theorem definition_rel_cases {relates : Definition → Definition → Prop} {name : String}
    (h : Option.Rel relates (grammar.definition? name) (other.definition? name)) :
    (grammar.definition? name = none ∧ other.definition? name = none) ∨
      ∃ definition changed, grammar.definition? name = some definition ∧
        other.definition? name = some changed ∧ relates definition changed := by
  cases hdefinition : grammar.definition? name <;> cases hother : other.definition? name <;>
    rw [hdefinition, hother] at h
  case none.none => exact .inl ⟨rfl, rfl⟩
  case none.some => cases h
  case some.none => cases h
  case some.some definition changed =>
    cases h with
    | some hrelates => exact .inr ⟨definition, changed, rfl, rfl, hrelates⟩

/-- Then the name is defined in both or in neither. -/
theorem defines_eq_of_rel {relates : Definition → Definition → Prop} {name : String}
    (h : Option.Rel relates (grammar.definition? name) (other.definition? name)) :
    other.defines name = grammar.defines name := by
  rw [defines, defines]
  rcases definition_rel_cases h with ⟨hnone, hother⟩ | ⟨definition, changed, hdefinition, hother, -⟩
  · rw [hnone, hother]
  · rw [hdefinition, hother]
    rfl

/-! ## Agreement -/

/-- Grammars that agree from a name agree from what the name refers to. -/
theorem AgreesFrom.refers {name reference : String} (h : grammar.AgreesFrom other name)
    (hrefers : grammar.Refers name reference) : grammar.AgreesFrom other reference :=
  fun reached hreaches => h reached (.head hrefers hreaches)

/-- Grammars that agree from a name have the same definition for it, or none. -/
theorem AgreesFrom.definition_eq {name : String} (h : grammar.AgreesFrom other name) :
    grammar.definition? name = other.definition? name :=
  h name .refl

/-- Grammars that have the same definitions agree from every name. -/
theorem agrees_of_definitions (h : grammar.definition? = other.definition?) (name : String) :
    grammar.AgreesFrom other name :=
  fun reached _ => congrFun h reached

/-- Grammars that agree from a name meet the same first cycle. -/
theorem AgreesFrom.explore_eq {name : String} (h : grammar.AgreesFrom other name)
    (path : List String) : grammar.explore path name = other.explore path name := by
  by_cases hpath : name ∈ path
  · rw [explore_of_mem hpath, explore_of_mem hpath]
  · cases hdefinition : grammar.definition? name with
    | none =>
        rw [explore_of_undefined hpath hdefinition,
          explore_of_undefined hpath (h.definition_eq ▸ hdefinition)]
    | some definition =>
        have hless := countOff_append_lt hdefinition hpath
        rw [explore_of_defined hpath hdefinition,
          explore_of_defined hpath (h.definition_eq ▸ hdefinition)]
        rw [← List.head?_filterMap, ← List.head?_filterMap]
        refine congrArg List.head? (List.filterMap_congr fun reference hreference => ?_)
        have hrefers := refers_of_definition hdefinition hreference
        exact (h.refers hrefers).explore_eq (path ++ [name])
termination_by grammar.countOff path

/-- If grammars agree from a name, the name is free of recursion in both or in neither. -/
theorem AgreesFrom.free_iff {name : String} (h : grammar.AgreesFrom other name) :
    grammar.FreeOfRecursion name ↔ other.FreeOfRecursion name := by
  rw [← explore_nil_eq_none_iff, ← explore_nil_eq_none_iff, h.explore_eq]

variable [UnicodeData]

/-- Grammars that agree from a name call it alike. -/
theorem AgreesFrom.call_eq {name : String} (h : grammar.AgreesFrom other name)
    (tokens : List String) (bound : Nat) (start : Int) :
    Matching.call grammar.definition? tokens bound name start =
      Matching.call other.definition? tokens bound name start := by
  -- The induction is on the bound: what is called inside of a rule has one level less.
  induction bound generalizing name start with
  | zero => rw [Matching.call, Matching.call, h.definition_eq]
  | succ bound ih =>
      rw [Matching.call, Matching.call, ← h.definition_eq]
      cases hdefinition : grammar.definition? name with
      | none => rfl
      | some definition =>
          have hagree : Matching.AgreeOn (Matching.call grammar.definition? tokens bound)
              (Matching.call other.definition? tokens bound) (Definition.references definition)
              start := by
            intro reference hreference position _
            exact ih (h.refers (refers_of_definition hdefinition hreference)) position
          simp only [Definition.match_congr (Matching.call_forward _ _) hagree]

/-! ## Questions -/

/-- Any bound on the nesting that allows for all rules will do for a name free of recursion. -/
theorem call_eq_of_free {name : String} (h : grammar.FreeOfRecursion name) {bound : Nat}
    (hbound : grammar.rules.size ≤ bound) (tokens : List String) (start : Int) :
    grammar.call tokens name start = Matching.call grammar.definition? tokens bound name start :=
  (call_eq_of_le h (length_le_nestingBound start) start).trans (call_eq_of_le h hbound start).symm

/-- One bound on the nesting serves two grammars for a name that is free of recursion in both. -/
theorem exists_common_bound {name : String} (h : grammar.FreeOfRecursion name)
    (hother : other.FreeOfRecursion name) (tokens : List String) (start : Int) :
    ∃ bound,
      grammar.call tokens name start =
        Matching.call grammar.definition? tokens bound name start ∧
      other.call tokens name start = Matching.call other.definition? tokens bound name start :=
  ⟨grammar.rules.size + other.rules.size,
    call_eq_of_free h (Nat.le_add_right _ _) tokens start,
    call_eq_of_free hother (Nat.le_add_left _ _) tokens start⟩

section Questions

variable {name : String}

omit [UnicodeData] in
/-- Grammars that agree from a name find the same cycle, whatever they remember. -/
theorem AgreesFrom.cycleFrom_eq (h : grammar.AgreesFrom other name)
    (hknows : grammar.Knows grammar.acyclic) (hother : other.Knows other.acyclic) :
    (grammar.cycleFrom name).1 = (other.cycleFrom name).1 := by
  rw [(cycleFrom_agrees hknows name).1, (cycleFrom_agrees hother name).1, h.explore_eq]

/-- Grammars that agree from a name judge every sentence alike, whatever they remember. -/
theorem AgreesFrom.verdict_eq (h : grammar.AgreesFrom other name)
    (hknows : grammar.Knows grammar.acyclic) (hother : other.Knows other.acyclic)
    (sentence : String) :
    (grammar.validate sentence name).1 = (other.validate sentence name).1 := by
  have hdefines : grammar.defines name = other.defines name := by
    rw [defines, defines, h.definition_eq]
  have hcycle := h.cycleFrom_eq hknows hother
  rw [Grammar.verdict_eq, Grammar.verdict_eq, ← hdefines, ← hcycle]
  split
  · cases hsearch : (grammar.cycleFrom name).1 with
    | some cycle => rfl
    | none =>
        have hfree := free_of_cycleFrom hknows hsearch
        have hcall (start : Int) : grammar.call (words sentence) name start =
            other.call (words sentence) name start := by
          obtain ⟨bound, hbound, hotherBound⟩ :=
            exists_common_bound hfree (h.free_iff.1 hfree) (words sentence) start
          rw [hbound, hotherBound, h.call_eq]
        simp only [hcall]
  · rfl

end Questions

/-! ## What an operation changes -/

/-- The names whose definitions an operation may change. -/
def Operation.changed : Operation → List String
  | .insert name _ | .erase name => [name]
  | .merge other => other.names
  | .readLine line => (RuleLine.written? line.toList).toList.map Prod.fst
  | .load lines => (lines.filterMap RuleLine.written?).map Prod.fst
  | .rebuild | .cycleFrom _ | .validate _ _ => []

/-- Insertions leave the rules of other names as they are. -/
theorem definition_insertAll {sources : List (String × String)} {target : String}
    (h : target ∉ sources.map Prod.fst) :
    (grammar.insertAll sources).2.definition? target = grammar.definition? target := by
  induction sources generalizing grammar with
  | nil => rfl
  | cons first rest ih =>
      rw [List.map_cons, List.mem_cons, not_or] at h
      have hfirst := definition_insert grammar first.1 first.2 target
      rw [if_neg fun hboth => h.1 hboth.1] at hfirst
      rw [insertAll]
      rcases hinsert : grammar.insert first.1 first.2 with ⟨_ | _, changed⟩
      · rwa [hinsert] at hfirst
      · rw [hinsert] at hfirst
        exact (ih h.2).trans hfirst

/-- An operation leaves the rules of all names as they are that it does not change. -/
theorem definition_apply (hconsistent : grammar.Consistent) {operation : Operation}
    {target : String} (h : target ∉ operation.changed) :
    (operation.apply grammar).definition? target = grammar.definition? target := by
  have hrules {changed : Grammar} (hrules : changed.rules = grammar.rules) :
      changed.definition? target = grammar.definition? target := by
    rw [definition?, definition?, hrules]
  cases operation with
  | insert name source =>
      rw [Operation.changed, List.mem_singleton] at h
      rw [Operation.apply, definition_insert, if_neg fun hboth => h hboth.1]
  | erase name =>
      rw [Operation.changed, List.mem_singleton] at h
      rw [Operation.apply, hconsistent.definition_erase, if_neg h]
  | merge other => exact definition_insertAll h
  | readLine line => rw [apply_read_line, definition_insertAll h]
  | load lines => rw [apply_load, definition_insertAll h]
  | rebuild =>
      rw [Operation.apply]
      split
      · rename_i copy hcopy
        exact congrFun (hconsistent.definition_rebuild hcopy).2 target
      · rfl
  | cycleFrom name => exact hrules (rules_cycleFrom grammar name)
  | validate sentence rule => exact hrules (rules_validate sentence rule)

/-- Operations one after the other leave the rules of all names as they are that none of them
changes. -/
theorem definition_run (hconsistent : grammar.Consistent) {operations : List Operation}
    {target : String} (h : ∀ operation ∈ operations, target ∉ operation.changed) :
    (run operations grammar).definition? target = grammar.definition? target := by
  unfold run
  induction operations generalizing grammar with
  | nil => rfl
  | cons operation rest ih =>
      obtain ⟨hfirst, hrest⟩ := List.forall_mem_cons.1 h
      rw [List.foldl_cons, ih (consistent_invariant.apply operation hconsistent) hrest,
        definition_apply hconsistent hfirst]

/-- After every history, and whatever has been asked before, two grammars in which all that can be
reached from a name has the same definitions, or none, find the same cycle from the name and judge
every sentence alike, with the same trace. So operations that change only rules which cannot be
reached from the name, and as many of them as one likes, change no answer about it. -/
theorem reachable_rules_decide (sources otherSources : List (String × String))
    (operations otherOperations : List Operation) (name : String) :
    let grammar := run operations (ofSources sources)
    let other := run otherOperations (ofSources otherSources)
    (grammar.AgreesFrom other name →
      (∀ sentence, (grammar.validate sentence name).1 = (other.validate sentence name).1) ∧
      (grammar.cycleFrom name).1 = (other.cycleFrom name).1) ∧
    ∀ changes : List Operation,
      (∀ change ∈ changes, ∀ changed ∈ change.changed, ¬ grammar.Reaches name changed) →
      (∀ sentence, ((run changes grammar).validate sentence name).1 =
        (grammar.validate sentence name).1) ∧
      ((run changes grammar).cycleFrom name).1 = (grammar.cycleFrom name).1 := by
  intro grammar other
  have hknows : grammar.Knows grammar.acyclic := knows_invariant.run sources operations
  have hother : other.Knows other.acyclic := knows_invariant.run otherSources otherOperations
  refine ⟨fun h => ⟨fun sentence => h.verdict_eq hknows hother sentence,
    h.cycleFrom_eq hknows hother⟩, fun changes hchanges => ?_⟩
  have hconsistent : grammar.Consistent := consistent_invariant.run sources operations
  have hrun : run changes grammar = run (operations ++ changes) (ofSources sources) :=
    List.foldl_append.symm
  have hafter : (run changes grammar).Knows (run changes grammar).acyclic :=
    hrun ▸ knows_invariant.run sources (operations ++ changes)
  have hagrees : grammar.AgreesFrom (run changes grammar) name := by
    intro reached hreaches
    exact (definition_run hconsistent fun change hchange hmem =>
      hchanges change hchange reached hmem hreaches).symm
  exact ⟨fun sentence => (hagrees.verdict_eq hknows hafter sentence).symm,
    (hagrees.cycleFrom_eq hknows hafter).symm⟩

end

/-- Greetings in a grammar that has been asked about them. -/
def askedGreetings : Grammar :=
  run [.validate "hello you" "greeting"]
    (ofSources [("greeting", "\"hello\" <name>"), ("name", "\"you\"")])

/-- Greetings among other rules, one of which is recursive. -/
def mixedGreetings : Grammar :=
  run [.erase "spare"] (ofSources
    [("loop", "<loop>"), ("name", "\"you\""), ("spare", "\"x\""), ("greeting", "\"hello\" <name>")])

/-- The same greetings in two grammars are judged alike, and a new rule that refers to them makes no
difference since nothing refers to it. -/
theorem reachable_rules_decide_greeting :
    (askedGreetings.AgreesFrom mixedGreetings "greeting" ∧
      (askedGreetings.validate "hello you" "greeting").1 =
        (mixedGreetings.validate "hello you" "greeting").1) ∧
    ¬ askedGreetings.Reaches "greeting" "loop" ∧
      ((run [.insert "loop" "<greeting>"] askedGreetings).cycleFrom "greeting").1 =
        (askedGreetings.cycleFrom "greeting").1 := by
  have hreached : ∀ reached, askedGreetings.Reaches "greeting" reached →
      reached ∈ ["greeting", "name"] := mem_of_reaches _ (by cbv) (by simp)
  have hagrees : askedGreetings.AgreesFrom mixedGreetings "greeting" := by
    intro reached hreaches
    rcases List.mem_cons.1 (hreached reached hreaches) with rfl | hmem
    · cbv
    · rw [List.mem_singleton.1 hmem]
      cbv
  have hloop : ¬ askedGreetings.Reaches "greeting" "loop" := fun hreaches => by
    simpa using hreached "loop" hreaches
  have hchanges : ∀ change ∈ [Operation.insert "loop" "<greeting>"], ∀ changed ∈ change.changed,
      ¬ askedGreetings.Reaches "greeting" changed := by
    simpa [Operation.changed] using hloop
  exact ⟨⟨hagrees, ((reachable_rules_decide _ _ _ _ "greeting").1 hagrees).1 "hello you"⟩, hloop,
    ((reachable_rules_decide _ [] _ [] "greeting").2 _ hchanges).2⟩

end Bnf.Grammar
