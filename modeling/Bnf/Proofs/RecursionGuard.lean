import Bnf.Proofs.Memory
import Bnf.Proofs.Repetition
import Bnf.Proofs.RuleStack
import Bnf.Proofs.Tasks
import Bnf.UnicodeData.Version14
import Mathlib

/-!
# Matching ends

A rule is matched only after a search for a cycle has found none. From such a rule, every way along
references meets a name once at most, and the rules that are being matched are such a way. So they
are never nested deeper than there are rules (`call_guarded`), and no bound on the nesting is ever
felt beyond that (`call_succ`). Together with what is known of repetitions, this is
`recursion_guarded`, for every grammar after every history.
-/

namespace Bnf.Grammar

section

variable {grammar : Grammar}

/-! ## Ways along references -/

/-- Rules that are being matched, the innermost first, are a way along references to the name that
is matched next, and this name is free of recursion. -/
structure Descends (grammar : Grammar) (active : List String) (name : String) : Prop where
  nodup : active.Nodup
  defined : ∀ rule ∈ active, grammar.defines rule = true
  leads : ∀ rule ∈ active, Relation.TransGen grammar.Refers rule name
  free : grammar.FreeOfRecursion name

/-- A name that is free of recursion begins a way. -/
theorem descends_nil {name : String} (h : grammar.FreeOfRecursion name) :
    grammar.Descends [] name :=
  ⟨List.nodup_nil, List.forall_mem_nil _, List.forall_mem_nil _, h⟩

/-- A way does not come back to a rule. -/
theorem Descends.not_mem {active : List String} {name : String} (h : grammar.Descends active name) :
    name ∉ active :=
  fun hmem => h.free name .refl (h.leads name hmem)

/-- A way that comes to a rule goes on to each of its references. -/
theorem Descends.refers {active : List String} {name reference : String}
    (h : grammar.Descends active name) (hrefers : grammar.Refers name reference) :
    grammar.Descends (name :: active) reference where
  nodup := List.nodup_cons.2 ⟨h.not_mem, h.nodup⟩
  defined := List.forall_mem_cons.2 ⟨hrefers.defines, h.defined⟩
  leads := List.forall_mem_cons.2
    ⟨.single hrefers, fun rule hmem => (h.leads rule hmem).tail hrefers⟩
  free := h.free.refers hrefers

/-- Names without repetition, as many as there are rules at most. -/
def AllowsNesting (grammar : Grammar) (active : List String) : Prop :=
  active.Nodup ∧ active.length ≤ grammar.rules.size

/-- Defined names without repetition are as many as there are rules at most. -/
theorem allows_nesting {active : List String} (hnodup : active.Nodup)
    (hdefined : ∀ rule ∈ active, grammar.defines rule = true) : grammar.AllowsNesting active := by
  have hsubset : active ⊆ grammar.rules.names :=
    fun rule hmem => defines_iff_mem_names.1 (hdefined rule hmem)
  have hlength := hnodup.length_le_of_subset hsubset
  rw [Dict.length_names] at hlength
  exact ⟨hnodup, hlength⟩

theorem Descends.allows {active : List String} {name : String} (h : grammar.Descends active name) :
    grammar.AllowsNesting active :=
  allows_nesting h.nodup h.defined

/-- A way that comes to a defined rule allows to match it. -/
theorem Descends.allows_cons {active : List String} {name : String}
    (h : grammar.Descends active name) (hdefined : grammar.defines name = true) :
    grammar.AllowsNesting (name :: active) :=
  allows_nesting (List.nodup_cons.2 ⟨h.not_mem, h.nodup⟩)
    (List.forall_mem_cons.2 ⟨hdefined, h.defined⟩)

/-- A way that comes to a defined rule holds fewer rules than there are. -/
theorem Descends.length_lt {active : List String} {name : String} {definition : Definition}
    (h : grammar.Descends active name)
    (hdefinition : grammar.definition? name = some definition) :
    active.length < grammar.rules.size :=
  (h.allows_cons (defines_of_definition hdefinition)).2

/-! ## Calls on a way -/

variable {tokens : List String}

variable [UnicodeData]

/-- Matching the next name of a way is guarded if the nesting may become as deep as there are
rules. -/
theorem call_guarded {bound : Nat} {active : List String} {name : String}
    (h : grammar.Descends active name) (hbound : grammar.rules.size ≤ bound + active.length)
    (start : Int) : Traced.Guarded grammar.AllowsNesting active active
      (Matching.call grammar.definition? tokens bound name start) := by
  -- Entering a rule takes one level from the bound and puts one rule on the way, so that the two
  -- together always allow for all rules.
  induction bound generalizing active name start with
  | zero =>
      rw [Matching.call]
      split
      · exact Traced.guarded_fail h.allows (by simp)
      · rename_i definition hdefinition
        have hlength := h.length_lt hdefinition
        omega
  | succ bound ih =>
      rw [Matching.call]
      split
      · exact Traced.guarded_fail h.allows (by simp)
      · rename_i definition hdefinition
        have hallows := h.allows_cons (defines_of_definition hdefinition)
        refine Traced.Guarded.inside h.allows hallows ?_ start
        refine Definition.match_kept (Traced.guarded_kept tokens hallows) ?_ start
        intro reference hreference position
        refine ih (h.refers (refers_of_definition hdefinition hreference)) ?_ position
        rw [List.length_cons]
        omega

/-- One more level of nesting changes nothing if the nesting may become as deep as there are
rules. -/
theorem call_succ {bound : Nat} {active : List String} {name : String}
    (h : grammar.Descends active name) (hbound : grammar.rules.size ≤ bound + active.length)
    (start : Int) : Matching.call grammar.definition? tokens (bound + 1) name start =
      Matching.call grammar.definition? tokens bound name start := by
  induction bound generalizing active name start with
  | zero =>
      rw [Matching.call, Matching.call]
      split
      · rfl
      · rename_i definition hdefinition
        have hlength := h.length_lt hdefinition
        omega
  | succ bound ih =>
      rw [Matching.call, Matching.call]
      split
      · rfl
      · rename_i definition hdefinition
        have hagree : Matching.AgreeOn (Matching.call grammar.definition? tokens (bound + 1))
            (Matching.call grammar.definition? tokens bound) (Definition.references definition)
            start := by
          intro reference hreference position _
          refine ih (h.refers (refers_of_definition hdefinition hreference)) ?_ position
          rw [List.length_cons]
          omega
        rw [Definition.match_congr (Matching.call_forward _ _) hagree]

/-- A name that is free of recursion is matched alike with any nesting that may become as deep as
there are rules. -/
theorem call_eq_of_le {name : String} (h : grammar.FreeOfRecursion name) {bound : Nat}
    (hbound : grammar.rules.size ≤ bound) (start : Int) :
    Matching.call grammar.definition? tokens bound name start =
      Matching.call grammar.definition? tokens grammar.rules.size name start := by
  induction hbound with
  | refl => rfl
  | step hbound ih => rw [call_succ (descends_nil h) hbound, ih]

omit [UnicodeData] in
/-- The bound that a grammar sets itself allows for all of its rules. -/
theorem length_le_nestingBound (start : Int) :
    grammar.rules.size ≤ Matching.nestingBound grammar.rules.size tokens.length start :=
  Nat.le_mul_of_pos_right _ (Nat.succ_pos _)

omit [UnicodeData] in
/-- A search that finds no cycle has come from a name that is free of recursion. -/
theorem free_of_cycleFrom (h : grammar.Knows grammar.acyclic) {name : String}
    (hnone : (grammar.cycleFrom name).1 = none) : grammar.FreeOfRecursion name := by
  rw [(cycleFrom_agrees h name).1] at hnone
  exact (explore_nil_eq_none_iff name).1 hnone

omit [UnicodeData] in
/-- From a name that is free of recursion, a search finds no cycle. -/
theorem cycleFrom_of_free (h : grammar.Knows grammar.acyclic) {name : String}
    (hfree : grammar.FreeOfRecursion name) : (grammar.cycleFrom name).1 = none := by
  rw [(cycleFrom_agrees h name).1]
  exact (explore_nil_eq_none_iff name).2 hfree

/-- After every history, judging a sentence never fails because rules are nested too deep. Once a
search for a cycle has found none, the rules that are being matched are at no point of the run one
rule twice, and never more than there are; matching with any bound that allows as many gives the
same result and the same trace, which is not that the bound was exceeded. Every repetition that a
run from within the tokens comes to advances from lap to lap, and takes as many laps as there are
tokens at most. And while a definition is matched, only names that it refers to are called: it does
not matter what other names would be, nor what these would be before the start. -/
theorem recursion_guarded (sources : List (String × String)) (operations : List Operation) :
    let grammar := run operations (ofSources sources)
    (∀ sentence name, (grammar.validate sentence name).1.result ≠ .error .nestingExceeded) ∧
    (∀ name, (grammar.cycleFrom name).1 = none → ∀ tokens (start : Int),
      (∀ before, before <+: (grammar.call tokens name start).events →
        (Trace.openRules [] before).Nodup ∧
          (Trace.openRules [] before).length ≤ grammar.rules.size) ∧
      ∀ bound, grammar.rules.size ≤ bound →
        Matching.call grammar.definition? tokens bound name start =
          grammar.call tokens name start ∧
        (Matching.call grammar.definition? tokens bound name start).result ≠
          .error .nestingExceeded) ∧
    (∀ tokens bound (task : Matching.Task), 0 ≤ task.start → ∀ less body position,
      Relation.ReflTransGen (Matching.Enters grammar.definition? tokens) (bound, task)
        (less, .repetition body position) →
      ∃ visited,
        Matching.Repeats
          (Symbol.matchAt tokens (Matching.call grammar.definition? tokens less) body)
          tokens.length position visited
          (Matching.advance
            (Symbol.matchAt tokens (Matching.call grammar.definition? tokens less) body)
            tokens.length position).result ∧
        visited.Pairwise (· < ·) ∧ visited.length ≤ tokens.length) ∧
    ∀ tokens bound (definition : Definition) (start : Int),
      (∀ name position,
        Relation.ReflTransGen
          (Matching.Begins tokens (Matching.call grammar.definition? tokens bound))
          (.definition definition start) (.symbol (.reference name) position) →
        name ∈ Definition.references definition) ∧
      ∀ other,
        (∀ name ∈ Definition.references definition, ∀ position : Int, start ≤ position →
          Matching.call grammar.definition? tokens bound name position = other name position) →
        Definition.matchAt tokens (Matching.call grammar.definition? tokens bound) definition
          start = Definition.matchAt tokens other definition start := by
  intro grammar
  have hknows : grammar.Knows grammar.acyclic := knows_invariant.run sources operations
  have hcall (name : String) (hnone : (grammar.cycleFrom name).1 = none) (tokens : List String)
      (start : Int) : Traced.Guarded grammar.AllowsNesting [] [] (grammar.call tokens name start) :=
    call_guarded (descends_nil (free_of_cycleFrom hknows hnone)) (length_le_nestingBound start)
      start
  refine ⟨?_, ?_, ?_, ?_⟩
  · intro sentence name hend
    rw [verdict_eq] at hend
    split at hend
    · split at hend
      · cases hend
      · rename_i hnone
        rcases Traced.result_bind_eq_error.1 hend with hend | ⟨finish, -, hend⟩
        · exact (hcall name hnone _ 0).ends hend
        · cases hend
    · cases hend
  · -- Any bound and the one that the grammar sets itself agree with as many levels as rules.
    intro name hnone tokens start
    have hfree := free_of_cycleFrom hknows hnone
    refine ⟨(hcall name hnone tokens start).within, fun bound hbound => ?_⟩
    have hsame : Matching.call grammar.definition? tokens bound name start =
        grammar.call tokens name start :=
      (call_eq_of_le hfree hbound start).trans
        (call_eq_of_le hfree (length_le_nestingBound start) start).symm
    exact ⟨hsame, hsame ▸ (hcall name hnone tokens start).ends⟩
  · intro tokens bound task hstart less body position hrun
    have hposition : task.start ≤ position := Matching.start_le hrun
    have hforward : Matching.Forward
        (Symbol.matchAt tokens (Matching.call grammar.definition? tokens less) body) :=
      (Symbol.match_forward (Matching.call_forward grammar.definition? less) body).1
    obtain ⟨visited, hrepeats, hpairwise, hbounds⟩ := Matching.repeats_advance hforward position
    have hlength := Matching.length_le_of_growing hpairwise hbounds
    exact ⟨visited, hrepeats, hpairwise, by omega⟩
  · intro tokens bound definition start
    refine ⟨fun name position hrun => ?_, fun other hagree => ?_⟩
    · exact Matching.references_subset hrun (List.mem_singleton_self name)
    · exact Definition.match_congr (Matching.call_forward _ _) hagree

end

/-- Two rules of greetings never need more than two levels of nesting, and the names in a greeting
are repeated from the second token on. -/
theorem recursion_guarded_greetings :
    let grammar := run [.erase "unused"]
      (ofSources [("greeting", "\"hello\" <name>*"), ("name", "\"you\"")])
    (grammar.cycleFrom "greeting").1 = none ∧
    (Matching.call grammar.definition? ["hello", "you"] 2 "greeting" 0).result ≠
      .error .nestingExceeded ∧
    ∃ visited,
      Matching.Repeats
        (Symbol.matchAt ["hello", "you"]
          (Matching.call grammar.definition? ["hello", "you"] 1) (.reference "name"))
        2 1 visited
        (Matching.advance
          (Symbol.matchAt ["hello", "you"]
            (Matching.call grammar.definition? ["hello", "you"] 1) (.reference "name"))
          2 1).result ∧
      visited.Pairwise (· < ·) ∧ visited.length ≤ 2 := by
  have hnone : ((run [.erase "unused"]
      (ofSources [("greeting", "\"hello\" <name>*"), ("name", "\"you\"")])).cycleFrom
        "greeting").1 = none := by cbv
  have hrules : (run [.erase "unused"]
      (ofSources [("greeting", "\"hello\" <name>*"), ("name", "\"you\"")])).rules.size ≤ 2 := by
    cbv
  intro grammar
  have hguarded := recursion_guarded
    [("greeting", "\"hello\" <name>*"), ("name", "\"you\"")] [.erase "unused"]
  exact ⟨hnone, ((hguarded.2.1 "greeting" hnone ["hello", "you"] 0).2 2 hrules).2,
    hguarded.2.2.1 ["hello", "you"] 1 (.modified (.repeated (.reference "name")) 1) (by decide)
      1 (.reference "name") 1 (.single (.within .repeated))⟩

end Bnf.Grammar
