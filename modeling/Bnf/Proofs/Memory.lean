import Bnf.Proofs.History
import Bnf.Proofs.ReferenceGraph
import Bnf.UnicodeData.Version14
import Mathlib

/-!
# What a grammar remembers

A grammar remembers names that were searched for a cycle without success, across questions and
start rules. After every history these are defined names that are free of recursion, and with a name
all that it refers to (`knows_invariant`): a change of the rules forgets them, and a search that
finds a cycle adds nothing. So nobody can tell from an answer what a grammar remembers. This is
`memory_invisible`: every answer is the one of the same grammar without its memory, and the one of
the fresh grammar that is made of the definitions. A fresh grammar cannot be made if one of the
definitions cannot be read, although a grammar that keeps it may still answer
(`memory_invisible_unreadable`).
-/

namespace Bnf.Grammar

section

variable [UnicodeData]

variable {grammar : Grammar}

/-- What a grammar remembers is free of recursion under its present rules, whatever is done with
it. -/
theorem knows_invariant : Invariant fun grammar => grammar.Knows grammar.acyclic where
  empty := knows_nil
  insert grammar name source h := by
    by_cases hsource : Definition.Readable source
    · rw [insert_of_readable hsource]
      exact knows_nil
    · rw [insert_of_not_readable hsource]
      exact h.with_definitions _
  erase grammar name h := by
    unfold erase
    dsimp only
    split
    · split
      · exact knows_nil
      · exact h.with_definitions _
    · exact h
  cycleFrom grammar name h := (cycleFrom_agrees h name).2

omit [UnicodeData] in
/-- Two grammars with the same rules find the same cycles, whatever they remember. -/
theorem cycleFrom_congr {other : Grammar} (hrules : grammar.definition? = other.definition?)
    (h : grammar.Knows grammar.acyclic) (hother : other.Knows other.acyclic) (name : String) :
    (grammar.cycleFrom name).1 = (other.cycleFrom name).1 := by
  rw [(cycleFrom_agrees h name).1, (cycleFrom_agrees hother name).1, explore_congr hrules]

/-- Two grammars with the same rules judge sentences in the same way, whatever they remember. -/
theorem verdict_congr {other : Grammar} (hrules : grammar.definition? = other.definition?)
    (h : grammar.Knows grammar.acyclic) (hother : other.Knows other.acyclic)
    (sentence rule : String) :
    (grammar.validate sentence rule).1 = (other.validate sentence rule).1 := by
  have hdefines : grammar.defines rule = other.defines rule := by
    unfold defines
    rw [hrules]
  rw [verdict_eq, verdict_eq, hdefines, cycleFrom_congr hrules h hother, call_congr hrules]

/-- Judging a sentence keeps the definitions. -/
@[simp]
theorem definitions_validate (sentence rule : String) :
    (grammar.validate sentence rule).2.definitions = grammar.definitions := by
  rw [grammar_validate]
  split
  · exact definitions_cycleFrom grammar rule
  · rfl

/-- Judging a sentence keeps the rules. -/
@[simp]
theorem rules_validate (sentence rule : String) :
    (grammar.validate sentence rule).2.rules = grammar.rules := by
  rw [grammar_validate]
  split
  · exact rules_cycleFrom grammar rule
  · rfl

/-- Two grammars have the same rules, and what they remember of them is right. -/
structure Resembles (grammar fresh : Grammar) : Prop where
  rules : grammar.definition? = fresh.definition?
  knows : grammar.Knows grammar.acyclic
  knows_fresh : fresh.Knows fresh.acyclic

/-- A grammar that resembles another gives the same verdict, with the same trace. -/
theorem Resembles.verdict {fresh : Grammar} (h : Resembles grammar fresh)
    (sentence rule : String) :
    (grammar.validate sentence rule).1 = (fresh.validate sentence rule).1 :=
  verdict_congr h.rules h.knows h.knows_fresh sentence rule

/-- A grammar that has judged a sentence still resembles the other. -/
theorem Resembles.judging {fresh : Grammar} (h : Resembles grammar fresh)
    (sentence rule : String) : Resembles (grammar.validate sentence rule).2 fresh where
  rules := by
    rw [← h.rules]
    funext name
    exact congrArg (Dict.find? · name) (rules_validate sentence rule)
  knows := knows_invariant.apply (.validate sentence rule) h.knows
  knows_fresh := h.knows_fresh

/-- After every history, a remembered name is defined and free of recursion, and all that it refers
to is remembered or not defined. A search for a cycle and a verdict on a sentence keep the
definitions and the rules. Every search for a cycle and every verdict on a sentence is the one of
the grammar that has the same definitions and rules and remembers nothing, and also the one of a
fresh grammar that is made of the definitions, if one can be made. It can unless one of the
definitions names a code point that is too large. -/
theorem memory_invisible (sources : List (String × String)) (operations : List Operation) :
    let grammar := run operations (ofSources sources)
    let forgetful := { grammar with acyclic := [] }
    (∀ name ∈ grammar.acyclic, grammar.defines name = true ∧ grammar.FreeOfRecursion name ∧
      ∀ reference, grammar.Refers name reference →
        reference ∈ grammar.acyclic ∨ grammar.defines reference = false) ∧
    (∀ name, (grammar.cycleFrom name).2.definitions = grammar.definitions ∧
      (grammar.cycleFrom name).2.rules = grammar.rules) ∧
    (∀ sentence rule, (grammar.validate sentence rule).2.definitions = grammar.definitions ∧
      (grammar.validate sentence rule).2.rules = grammar.rules) ∧
    ((∀ name, (grammar.cycleFrom name).1 = (forgetful.cycleFrom name).1) ∧
      ∀ sentence rule,
        (grammar.validate sentence rule).1 = (forgetful.validate sentence rule).1) ∧
    (∀ fresh, construct grammar.sources = .ok fresh →
      (∀ name, (grammar.cycleFrom name).1 = (fresh.cycleFrom name).1) ∧
      ∀ sentence rule, (grammar.validate sentence rule).1 = (fresh.validate sentence rule).1) ∧
    ∀ fault, construct grammar.sources = .error fault ↔ fault = .codePointOverflow ∧
      ∃ entry ∈ grammar.sources, Definition.read entry.2.toList = .error .codePointOverflow := by
  intro grammar forgetful
  have hknows : grammar.Knows grammar.acyclic := knows_invariant.run sources operations
  have hconsistent : grammar.Consistent := consistent_invariant.run sources operations
  refine ⟨?_, ?_, ?_, ?_, ?_, fun fault => construct_eq_error_iff⟩
  · intro name hname
    exact ⟨hknows.defined name hname, hknows.free name hname, hknows.closed name hname⟩
  · exact fun name => ⟨definitions_cycleFrom grammar name, rules_cycleFrom grammar name⟩
  · exact fun sentence rule => ⟨definitions_validate sentence rule, rules_validate sentence rule⟩
  · exact ⟨cycleFrom_congr rfl hknows knows_nil, verdict_congr rfl hknows knows_nil⟩
  · intro fresh hfresh
    have hrules := (hconsistent.definition_rebuild hfresh).2.symm
    have hknowsFresh : fresh.Knows fresh.acyclic := knows_invariant.construct hfresh
    exact ⟨cycleFrom_congr hrules hknows hknowsFresh, verdict_congr hrules hknows hknowsFresh⟩

end

/-- A grammar that was asked about a sentence remembers the rules that the search has passed, and
they are free of recursion. -/
theorem memory_invisible_greetings :
    (run [.validate "hello you" "greeting"]
      (ofSources [("greeting", "\"hello\" <name>"), ("name", "\"you\"")])).acyclic =
        ["greeting", "name"] ∧
    (run [.validate "hello you" "greeting"]
      (ofSources [("greeting", "\"hello\" <name>"), ("name", "\"you\"")])).FreeOfRecursion
        "greeting" := by
  have hacyclic : (run [.validate "hello you" "greeting"]
      (ofSources [("greeting", "\"hello\" <name>"), ("name", "\"you\"")])).acyclic =
        ["greeting", "name"] := by cbv
  have hremembered := (memory_invisible [("greeting", "\"hello\" <name>"), ("name", "\"you\"")]
    [.validate "hello you" "greeting"]).1 "greeting" (by rw [hacyclic]; exact List.mem_cons_self)
  exact ⟨hacyclic, hremembered.2.1⟩

/-- A definition that cannot be read takes the place of an older one, and the rule stays. The
grammar still judges sentences by this rule, but no fresh grammar of its definitions can be made. -/
theorem memory_invisible_unreadable :
    let grammar := run [.insert "r" "[\\U80000000]"] (ofSources [("r", "\"a\"")])
    (grammar.validate "a" "r").1.result = .ok true ∧
      construct grammar.sources = .error .codePointOverflow ∧
      ¬ ∀ (sources : List (String × String)) (operations : List Operation),
        let grammar := run operations (ofSources sources)
        ∃ fresh, construct grammar.sources = .ok fresh ∧ ∀ sentence rule,
          (grammar.validate sentence rule).1.result = (fresh.validate sentence rule).1.result := by
  have hvalid : ((run [.insert "r" "[\\U80000000]"] (ofSources [("r", "\"a\"")])).validate "a"
      "r").1.result = .ok true := by cbv
  have hfault : construct (run [.insert "r" "[\\U80000000]"]
      (ofSources [("r", "\"a\"")])).sources = .error .codePointOverflow := by cbv
  refine ⟨hvalid, hfault, fun h => ?_⟩
  obtain ⟨fresh, hfresh, -⟩ := h [("r", "\"a\"")] [.insert "r" "[\\U80000000]"]
  rw [hfault] at hfresh
  cases hfresh

end Bnf.Grammar
