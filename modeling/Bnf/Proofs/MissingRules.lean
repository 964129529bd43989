import Bnf.Proofs.Faults
import Bnf.Proofs.ReachableRules
import Bnf.UnicodeData.Version14
import Mathlib

/-!
# Defining a missing rule

A rule that is not defined may be referred to, and a run may come to call it or not. If it does not,
it never learns whether the rule is there: defining it leaves the run as it was, with its result and
its trace, although the text of the rules that are matched refers to it. `Traced.Fills` says this of
two computations, and it is carried from calls to calls (`call_fills`). Besides this, the new rule
can only add ways along references, so that it may close a cycle but open none. What follows for
verdicts is `missing_rule_fills`.
-/

namespace Bnf

variable [UnicodeData]

namespace Traced

variable {α : Type} {missing : String}

/-- A computation ends because a rule is missing, or it is another computation as well. -/
def Fills (missing : String) {α : Type} (run filled : Traced α) : Prop :=
  run.result = .error (.undefinedRule missing) ∨ filled = run

omit [UnicodeData] in
/-- Computations in a row are as they would be with the missing rule, unless one of them ends
because it is missing. -/
theorem fills_compatible (missing : String) : Matching.Compatible (Fills missing) where
  refl run := .inr rfl
  bind := by
    intro α β first second next further hfirst hnext
    rcases hfirst with hfault | rfl
    · exact .inl (result_bind_eq_error.2 (.inl hfault))
    · -- The two computations begin alike, and go on alike unless a rule is missing later on.
      cases hresult : second.result with
      | error fault =>
          refine .inr (bind_congr fun value hvalue => ?_)
          rw [hresult] at hvalue
          cases hvalue
      | ok value =>
          rcases hnext value with hfault | hsame
          · exact .inl (result_bind_eq_error.2 (.inr ⟨value, hresult, hfault⟩))
          · refine .inr (bind_congr fun other hother => ?_)
            rw [hresult] at hother
            cases hother
            exact hsame

omit [UnicodeData] in
/-- Being filled is not a matter of the depth at which things are noted. -/
theorem Fills.nested {run filled : Traced α} (h : Fills missing run filled) :
    Fills missing (nested run) (nested filled) :=
  h.imp_right (congrArg Traced.nested)

end Traced

namespace Grammar

variable {grammar : Grammar} {name source : String}

/-! ## Ways along references -/

/-- A new rule leaves all references as they are. -/
theorem Refers.insert (hmissing : grammar.defines name = false) {other reference : String}
    (h : grammar.Refers other reference) :
    (grammar.insert name source).2.Refers other reference := by
  have hother : other ≠ name := by
    rintro rfl
    rw [h.defines] at hmissing
    cases hmissing
  obtain ⟨definition, hdefinition, hmem⟩ := h
  refine ⟨definition, ?_, hmem⟩
  rw [definition_insert, if_neg fun hboth => hother hboth.1, hdefinition]

/-- A new rule makes nothing free of recursion. -/
theorem FreeOfRecursion.of_insert (hmissing : grammar.defines name = false) {other : String}
    (h : (grammar.insert name source).2.FreeOfRecursion other) : grammar.FreeOfRecursion other :=
  h.of_leads fun hrefers => .single (hrefers.insert hmissing)

/-! ## Runs -/

/-- A call ends because the missing rule is called, or it is the same when the rule is defined. -/
theorem call_fills (hmissing : grammar.defines name = false) (tokens : List String) (bound : Nat)
    (called : String) (start : Int) :
    Traced.Fills name (Matching.call grammar.definition? tokens bound called start)
      (Matching.call (grammar.insert name source).2.definition? tokens bound called start) := by
  have hnone : grammar.definition? name = none := definition_eq_none_iff.2 hmissing
  have hmissed (bound : Nat) (start : Int) :
      (Matching.call grammar.definition? tokens bound name start).result =
        .error (.undefinedRule name) := by
    rw [Matching.call_of_undefined hnone]
    rfl
  -- The induction is on the bound: what is called inside of a rule has one level less.
  induction bound generalizing called start with
  | zero =>
      by_cases hcalled : called = name
      · exact .inl (hcalled ▸ hmissed 0 start)
      · rw [Matching.call, Matching.call, definition_insert, if_neg fun hboth => hcalled hboth.1]
        exact .inr rfl
  | succ bound ih =>
      by_cases hcalled : called = name
      · exact .inl (hcalled ▸ hmissed (bound + 1) start)
      · rw [Matching.call, Matching.call, definition_insert, if_neg fun hboth => hcalled hboth.1]
        cases grammar.definition? called with
        | none => exact .inr rfl
        | some definition =>
            have hcompatible := Traced.fills_compatible name
            have hinner : Traced.Fills name
                (Definition.matchAt tokens (Matching.call grammar.definition? tokens bound)
                  definition start)
                (Definition.matchAt tokens
                  (Matching.call (grammar.insert name source).2.definition? tokens bound)
                  definition start) :=
              Definition.match_related hcompatible
                (fun reference _ position => ih reference position) start
            exact hcompatible.bind (.inr rfl) fun _ =>
              hcompatible.bind hinner.nested fun _ => .inr rfl

/-- A verdict without a cycle is that the missing rule is called, or it is the same when the rule is
defined. -/
theorem verdict_fills (hknows : grammar.Knows grammar.acyclic)
    (hmissing : grammar.defines name = false) (sentence rule : String)
    (hfree : (grammar.insert name source).2.FreeOfRecursion rule) :
    Traced.Fills name (grammar.validate sentence rule).1
      ((grammar.insert name source).2.validate sentence rule).1 := by
  have hfilled := knows_invariant.insert grammar name source hknows
  have hdefines (hrule : rule ≠ name) :
      (grammar.insert name source).2.defines rule = grammar.defines rule := by
    rw [defines, definition_insert, if_neg fun hboth => hrule hboth.1, defines]
  cases hdefined : grammar.defines rule with
  | false =>
      rw [validate_of_undefined hdefined]
      by_cases hrule : rule = name
      · exact .inl (hrule ▸ rfl)
      · rw [validate_of_undefined ((hdefines hrule).trans hdefined)]
        exact .inr rfl
  | true =>
      have hrule : rule ≠ name := by
        rintro rfl
        rw [hmissing] at hdefined
        cases hdefined
      have hfreeBefore := hfree.of_insert hmissing
      obtain ⟨bound, hbound, hfilledBound⟩ :=
        exists_common_bound hfreeBefore hfree (words sentence) 0
      rw [verdict_of_free hknows hdefined hfreeBefore, verdict_of_free hfilled
        ((hdefines hrule).trans hdefined) hfree, hbound, hfilledBound]
      exact (Traced.fills_compatible name).bind (call_fills hmissing _ _ _ _) fun _ => .inr rfl

/-- A name from which a recursive name can be reached refuses every sentence for a cycle. -/
theorem exists_cycle_of_not_free (hknows : grammar.Knows grammar.acyclic) {rule : String}
    (h : ¬ grammar.FreeOfRecursion rule) (sentence : String) :
    ∃ cycle, (grammar.validate sentence rule).1.result = .error (.recursiveRule cycle) := by
  have hdefined : grammar.defines rule = true := by
    by_contra hundefined
    exact h (free_of_undefined (definition_eq_none_iff.2 (eq_false_of_ne_true hundefined)))
  have hnone : (grammar.cycleFrom rule).1 ≠ none := fun hnone => h (free_of_cycleFrom hknows hnone)
  obtain ⟨cycle, hcycle⟩ := Option.ne_none_iff_exists'.1 hnone
  exact ⟨cycle, (validate_eq_recursive_iff hknows hdefined).2 hcycle⟩

/-- Erasing a rule that was missing before it was defined gives the old rules back. -/
theorem definition_erase_insert (h : grammar.Consistent) (hmissing : grammar.defines name = false) :
    ((grammar.insert name source).2.erase name).2.definition? = grammar.definition? := by
  funext target
  rw [(h.insert name source).definition_erase, definition_insert]
  by_cases htarget : target = name
  · rw [if_pos htarget, htarget, definition_eq_none_iff.2 hmissing]
  · rw [if_neg htarget, if_neg fun hboth => htarget hboth.1]

/-- After every history, a name that is not defined may be given any definition. A verdict that was
not that the name is missing stays as it was, with its trace, unless there is a cycle now; and a
cycle before means a cycle now. Conversely, if a sentence is judged valid or not valid now, it was
judged so before, unless the name was missing. Erasing the rule gives the old verdicts back. -/
theorem missing_rule_fills (sources : List (String × String)) (operations : List Operation)
    (name source : String) :
    let grammar := run operations (ofSources sources)
    grammar.defines name = false →
    ∀ sentence rule : String,
      let before := (grammar.validate sentence rule).1
      let after := ((grammar.insert name source).2.validate sentence rule).1
      let again := (((grammar.insert name source).2.erase name).2.validate sentence rule).1
      (before.result ≠ .error (.undefinedRule name) →
        after = before ∨ ∃ cycle, after.result = .error (.recursiveRule cycle)) ∧
      ((∃ cycle, before.result = .error (.recursiveRule cycle)) →
        ∃ cycle, after.result = .error (.recursiveRule cycle)) ∧
      (∀ valid, after.result = .ok valid →
        before.result = .ok valid ∨ before.result = .error (.undefinedRule name)) ∧
      again = before := by
  intro grammar hmissing sentence rule before after again
  have hknows : grammar.Knows grammar.acyclic := knows_invariant.run sources operations
  have hconsistent : grammar.Consistent := consistent_invariant.run sources operations
  have hfilled := knows_invariant.insert grammar name source hknows
  have herased := knows_invariant.erase (grammar.insert name source).2 name hfilled
  have hagain : again = before :=
    (agrees_of_definitions (definition_erase_insert hconsistent hmissing) rule).verdict_eq herased
      hknows sentence
  -- The new rule may close a cycle. If it does not, only a call of the missing name differs.
  by_cases hfree : (grammar.insert name source).2.FreeOfRecursion rule
  · have hfills : Traced.Fills name before after :=
      verdict_fills hknows hmissing sentence rule hfree
    refine ⟨fun hbefore => .inl (hfills.resolve_left hbefore), ?_, fun valid hvalid => ?_, hagain⟩
    · rintro ⟨cycle, hcycle⟩
      rcases hfills with hfault | hsame
      · rw [hcycle] at hfault
        cases hfault
      · exact ⟨cycle, hsame ▸ hcycle⟩
    · rcases hfills with hfault | hsame
      · exact .inr hfault
      · exact .inl (hsame ▸ hvalid)
  · obtain ⟨cycle, hcycle⟩ := exists_cycle_of_not_free hfilled hfree sentence
    refine ⟨fun _ => .inr ⟨cycle, hcycle⟩, fun _ => ⟨cycle, hcycle⟩, fun valid hvalid => ?_, hagain⟩
    have hboth : after.result = .error (.recursiveRule cycle) := hcycle
    rw [hboth] at hvalid
    cases hvalid

end Grammar

end Bnf

namespace Bnf.Grammar

/-- A grammar in which a rule is missing that a later word refers to. -/
def unfinished : Grammar :=
  run [] (ofSources [("start", "\"a\" | \"b\" <missing>?")])

/-- The missing rule is not called by the first sentence, whose verdict stays when the rule is
defined, and it is called by the second. -/
theorem missing_rule_fills_unfinished :
    unfinished.defines "missing" = false ∧
    ((unfinished.validate "a" "start").1.result ≠ .error (.undefinedRule "missing") ∧
      ((unfinished.insert "missing" "\"c\"").2.validate "a" "start").1 =
        (unfinished.validate "a" "start").1) ∧
    ((unfinished.insert "missing" "\"c\"").2.validate "b c" "start").1.result = .ok true ∧
      (unfinished.validate "b c" "start").1.result = .error (.undefinedRule "missing") := by
  have hmissing : unfinished.defines "missing" = false := by cbv
  have hbefore : (unfinished.validate "a" "start").1.result = .ok true := by cbv
  have hafter : ((unfinished.insert "missing" "\"c\"").2.validate "a" "start").1.result =
      .ok true := by cbv
  have hvalid : ((unfinished.insert "missing" "\"c\"").2.validate "b c" "start").1.result =
      .ok true := by cbv
  have hother : (unfinished.validate "b c" "start").1.result ≠ .ok true := by
    have hfault : (unfinished.validate "b c" "start").1.result =
        .error (.undefinedRule "missing") := by cbv
    simp [hfault]
  have hcalled :
      (unfinished.validate "a" "start").1.result ≠ .error (.undefinedRule "missing") := by
    simp [hbefore]
  have hfirst := missing_rule_fills _ [] "missing" "\"c\"" hmissing "a" "start"
  have hsecond := missing_rule_fills _ [] "missing" "\"c\"" hmissing "b c" "start"
  refine ⟨hmissing, ⟨hcalled, ?_⟩, hvalid, (hsecond.2.2.1 true hvalid).resolve_left hother⟩
  rcases hfirst.1 hcalled with hsame | ⟨cycle, hcycle⟩
  · exact hsame
  · have hboth := hafter.symm.trans hcycle
    cases hboth

end Bnf.Grammar
