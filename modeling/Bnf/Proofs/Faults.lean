import Bnf.Proofs.CycleSearch
import Bnf.Proofs.UsableRules
import Bnf.UnicodeData.Version14
import Mathlib

/-!
# Faults of a validation

A sentence is refused at once if the name is not defined or if a recursive name can be reached from
it. Otherwise the only fault is that the run calls a name that is not defined. Nothing stops such a
fault on its way out, be it an optional symbol, a repetition or a production with others after it:
what faults inside of a task is the fault of the task (`Enters.fault`). And every fault has come up
that way from a call, since tasks do not begin tasks forever (`exists_fault_source`). Which
sentences are refused, and why, is `validation_faults`.
-/

namespace Bnf

variable [UnicodeData]

namespace Matching

variable {rules : String → Option Definition} {tokens : List String}

/-- How a task ends, with at most this many rules inside of each other. -/
def Task.result (rules : String → Option Definition) (tokens : List String) (bound : Nat) :
    Task → Except Fault (Option Int)
  | .definition alternatives start =>
      (Definition.matchAt tokens (call rules tokens bound) alternatives start).result
  | .production symbols start =>
      (Production.matchAt tokens (call rules tokens bound) symbols start).result
  | .modified body start =>
      (Symbol.matchModified tokens (call rules tokens bound) body start).result
  | .symbol body start => (Symbol.matchAt tokens (call rules tokens bound) body start).result
  | .repetition body start =>
      (some <$> advance (Symbol.matchAt tokens (call rules tokens bound) body) tokens.length
        start).result

/-! ## Faults come out -/

/-- A fault of a task that is begun is a fault of the task that begins it. -/
theorem Begins.fault {bound : Nat} {task inner : Task} {fault : Fault}
    (h : Begins tokens (call rules tokens bound) task inner)
    (hinner : inner.result rules tokens bound = .error fault) :
    task.result rules tokens bound = .error fault := by
  cases h with
  | production =>
      rw [Task.result, Definition.matchAt]
      exact Traced.result_bind_eq_error.2 (.inl hinner)
  | alternative hfails =>
      rw [Task.result, Definition.matchAt]
      exact Traced.result_bind_eq_error.2 (.inr ⟨none, hfails, hinner⟩)
  | modified =>
      rw [Task.result, Production.matchAt_cons]
      exact Traced.result_bind_eq_error.2 (.inl hinner)
  | further hfirst =>
      rw [Task.result, Production.matchAt_cons]
      exact Traced.result_bind_eq_error.2 (.inr ⟨_, hfirst, hinner⟩)
  | optional => exact Traced.result_map_eq_error.2 hinner
  | repeated => exact hinner
  | plain hoptional hrepeated =>
      rw [Task.result, Symbol.match_modified_of_plain hoptional hrepeated]
      exact hinner
  | lap hstart =>
      refine Traced.result_map_eq_error.2 ?_
      rw [advance, dif_pos hstart]
      exact Traced.result_bind_eq_error.2 (.inl hinner)
  | again hstart hlap hnext =>
      have hforward := (Symbol.match_forward (call_forward rules bound) _).1 _ _ hlap
      have hlt := lt_of_le_of_ne hforward (Ne.symm hnext)
      refine Traced.result_map_eq_error.2 ?_
      rw [advance, dif_pos hstart]
      refine Traced.result_bind_eq_error.2 (.inr ⟨_, hlap, ?_⟩)
      simp only [hlt, dite_true]
      exact Traced.result_map_eq_error.1 hinner
  | group => exact hinner

/-- A fault of a task that is entered is a fault of the task that enters it. -/
theorem Enters.fault {outer inner : Nat × Task} {fault : Fault}
    (h : Enters rules tokens outer inner)
    (hinner : inner.2.result rules tokens inner.1 = .error fault) :
    outer.2.result rules tokens outer.1 = .error fault := by
  cases h with
  | within h => exact h.fault hinner
  | rule hrule => exact (result_call_succ hrule).trans hinner

/-- A fault comes out through all tasks in which it happens. -/
theorem fault_escapes {outer inner : Nat × Task} {fault : Fault}
    (h : Relation.ReflTransGen (Enters rules tokens) outer inner)
    (hinner : inner.2.result rules tokens inner.1 = .error fault) :
    outer.2.result rules tokens outer.1 = .error fault := by
  induction h with
  | refl => exact hinner
  | tail _ hlast ih => exact ih (hlast.fault hinner)

/-! ## Faults come from calls -/

/-- The size of what a task has to do apart from calls and laps. -/
noncomputable def Task.weight : Task → Nat
  | .definition alternatives _ => 3 * sizeOf alternatives
  | .production symbols _ => 3 * sizeOf symbols
  | .symbol body _ => 3 * sizeOf body
  | .repetition body _ => 3 * sizeOf body + 1
  | .modified body _ => 3 * sizeOf body + 2

/-- A task enters tasks that are nested less deep, or smaller, or nearer to the end of the
tokens. -/
theorem Enters.decreases {outer inner : Nat × Task} (h : Enters rules tokens outer inner) :
    Prod.Lex (· < ·) (Prod.Lex (· < ·) (· < ·))
      (inner.1, inner.2.weight, (tokens.length - inner.2.start).toNat)
      (outer.1, outer.2.weight, (tokens.length - outer.2.start).toNat) := by
  cases h with
  | rule hrule => exact .left _ _ (Nat.lt_succ_self _)
  | within h =>
      refine .right _ ?_
      cases h with
      | again hstart hlap hnext =>
          -- A lap that repeats the task as it is has come nearer to the end of the tokens.
          have hforward := (Symbol.match_forward (call_forward rules _) _).1 _ _ hlap
          refine .right _ ?_
          simp only [Task.start]
          omega
      | _ =>
          refine .left _ _ ?_
          simp [Task.weight]
          try omega

/-- Tasks do not enter tasks forever. -/
theorem enters_wellFounded (rules : String → Option Definition) (tokens : List String) :
    WellFounded fun inner outer => Enters rules tokens outer inner :=
  Subrelation.wf Enters.decreases
    (InvImage.wf (fun task : Nat × Task =>
        (task.1, task.2.weight, (tokens.length - task.2.start).toNat))
      (WellFounded.prod_lex Nat.lt_wfRel.wf (WellFounded.prod_lex Nat.lt_wfRel.wf Nat.lt_wfRel.wf)))

omit [UnicodeData] in
/-- A demanded token never faults at a position that is counted from the front. -/
theorem one_token_ne_error {symbol : Symbol} {accepts : String → Bool} {start : Int} {fault : Fault}
    (hstart : 0 ≤ start) : (oneToken tokens symbol accepts start).result ≠ .error fault := by
  rw [result_one_token, tokenAt?, if_pos hstart]
  split
  · have hlength : start.toNat < tokens.length := by omega
    rw [List.getElem?_eq_getElem hlength]
    simp
  · simp

/-- A task that faults, and begins at a token that is there or at the end of the tokens, calls an
undefined rule, or has entered a task that faults, unless rules are nested too deep. -/
theorem Task.fault_cases {bound : Nat} {task : Task} {fault : Fault} (hstart : 0 ≤ task.start)
    (hnesting : fault ≠ .nestingExceeded) (h : task.result rules tokens bound = .error fault) :
    (∃ name start, task = .symbol (.reference name) start ∧ rules name = none ∧
      fault = .undefinedRule name) ∨
    ∃ inner : Nat × Task, Enters rules tokens (bound, task) inner ∧
      inner.2.result rules tokens inner.1 = .error fault := by
  cases task with
  | definition alternatives start =>
      cases alternatives with
      | nil => cases h
      | cons first rest =>
          rw [Task.result, Definition.matchAt] at h
          rcases Traced.result_bind_eq_error.1 h with h | ⟨finish, hfirst, h⟩
          · exact .inr ⟨_, .within .production, h⟩
          · cases finish with
            | none => exact .inr ⟨_, .within (.alternative hfirst), h⟩
            | some position => cases h
  | production symbols start =>
      cases symbols with
      | nil => cases h
      | cons first rest =>
          rw [Task.result, Production.matchAt_cons] at h
          rcases Traced.result_bind_eq_error.1 h with h | ⟨next, hfirst, h⟩
          · exact .inr ⟨_, .within .modified, h⟩
          · cases next with
            | none => cases h
            | some middle => exact .inr ⟨_, .within (.further hfirst), h⟩
  | modified body start =>
      cases body with
      | optional body =>
          exact .inr ⟨_, .within .optional, Traced.result_map_eq_error.1 h⟩
      | repeated body => exact .inr ⟨_, .within .repeated, h⟩
      | _ => exact .inr ⟨_, .within (.plain (by simp) (by simp)), h⟩
  | symbol body start =>
      cases body with
      | terminal literal => exact absurd h (one_token_ne_error hstart)
      | charClass pattern => exact absurd h (one_token_ne_error hstart)
      | unknown code => cases h
      | optional body => cases h
      | repeated body => cases h
      | group alternatives => exact .inr ⟨_, .within .group, h⟩
      | reference name =>
          change (call rules tokens bound name start).result = .error fault at h
          cases hrule : rules name with
          | none =>
              rw [call_of_undefined hrule] at h
              exact .inl ⟨name, start, rfl, hrule, (Except.error.inj h).symm⟩
          | some definition =>
              cases bound with
              | zero =>
                  rw [call, hrule] at h
                  exact absurd (Except.error.inj h).symm hnesting
              | succ bound => exact .inr ⟨_, .rule hrule, (result_call_succ hrule).symm.trans h⟩
  | repetition body start =>
      have hadvance := Traced.result_map_eq_error.1 h
      rw [advance] at hadvance
      split at hadvance
      · rename_i hinside
        rcases Traced.result_bind_eq_error.1 hadvance with hlap | ⟨lap, hlap, hrest⟩
        · exact .inr ⟨_, .within (.lap hinside), hlap⟩
        · cases lap with
          | none => cases hrest
          | some next =>
              by_cases hnext : start < next
              · simp only [hnext, dite_true] at hrest
                exact .inr ⟨_, .within (.again hinside hlap (by omega)),
                  Traced.result_map_eq_error.2 hrest⟩
              · simp only [hnext, dite_false] at hrest
                cases hrest
      · cases hadvance

/-- A fault of a task that begins at a token that is there or at the end of the tokens has come up
from the call of an undefined rule, unless rules are nested too deep. -/
theorem exists_fault_source {bound : Nat} {task : Task} {fault : Fault} (hstart : 0 ≤ task.start)
    (hnesting : fault ≠ .nestingExceeded) (h : task.result rules tokens bound = .error fault) :
    ∃ name less start, rules name = none ∧ fault = .undefinedRule name ∧
      Relation.ReflTransGen (Enters rules tokens) (bound, task)
        (less, .symbol (.reference name) start) := by
  have hsource : ∀ outer : Nat × Task, 0 ≤ outer.2.start →
      outer.2.result rules tokens outer.1 = .error fault →
      ∃ name less start, rules name = none ∧ fault = .undefinedRule name ∧
        Relation.ReflTransGen (Enters rules tokens) outer
          (less, .symbol (.reference name) start) := by
    intro outer
    -- From task to task inwards, the fault stays the same one until it meets the call it is from.
    induction outer using (enters_wellFounded rules tokens).induction with
    | _ outer ih =>
        intro hstart h
        rcases Task.fault_cases hstart hnesting h with ⟨name, start, htask, hrule, hfault⟩ | hinner
        · refine ⟨name, outer.1, start, hrule, hfault, ?_⟩
          rw [← htask]
        · obtain ⟨inner, henters, hinner⟩ := hinner
          have hle : outer.2.start ≤ inner.2.start := start_le (.single henters)
          obtain ⟨name, less, start, hrule, hfault, hrun⟩ :=
            ih inner henters (by omega) hinner
          exact ⟨name, less, start, hrule, hfault, .head henters hrun⟩
  exact hsource (bound, task) hstart h

end Matching

namespace Grammar

variable {grammar : Grammar} {tokens : List String}

/-- All that is referred to inside of the call of a name can be reached from the name. -/
theorem reaches_of_enters {bound : Nat} {name : String} {start : Int} {inner : Nat × Matching.Task}
    (h : Relation.ReflTransGen (Matching.Enters grammar.definition? tokens)
      (bound, .symbol (.reference name) start) inner) :
    ∀ reference ∈ inner.2.references, grammar.Reaches name reference := by
  induction h with
  | refl =>
      intro reference hreference
      rw [List.mem_singleton.1 hreference]
  | tail _ hlast ih =>
      intro reference hreference
      cases hlast with
      | within hbegins => exact ih reference (hbegins.references_subset hreference)
      | rule hdefinition =>
          exact (ih _ (List.mem_singleton_self _)).tail
            (refers_of_definition hdefinition hreference)

/-- Judging a sentence by a name comes to call another name. -/
def Calls (grammar : Grammar) (sentence name called : String) : Prop :=
  ∃ less position, Relation.ReflTransGen (Matching.Enters grammar.definition? (words sentence))
    (Matching.nestingBound grammar.rules.size (words sentence).length 0,
      .symbol (.reference name) 0)
    (less, .symbol (.reference called) position)

/-- A name that is free of recursion faults by calling an undefined name and in no other way. -/
theorem call_eq_error_iff {sentence name : String} (hfree : grammar.FreeOfRecursion name)
    (fault : Fault) :
    (grammar.call (words sentence) name 0).result = .error fault ↔
      ∃ missing, fault = .undefinedRule missing ∧ grammar.defines missing = false ∧
        grammar.Calls sentence name missing := by
  constructor
  · intro h
    have hnesting : fault ≠ .nestingExceeded := by
      rintro rfl
      exact (call_guarded (descends_nil hfree) (length_le_nestingBound 0) 0).ends h
    have htask : Matching.Task.result grammar.definition? (words sentence)
        (Matching.nestingBound grammar.rules.size (words sentence).length 0)
        (.symbol (.reference name) 0) = .error fault := h
    have hstart : 0 ≤ (Matching.Task.symbol (.reference name) 0).start := Int.le_refl 0
    obtain ⟨missing, less, position, hrule, hfault, hrun⟩ :=
      Matching.exists_fault_source hstart hnesting htask
    exact ⟨missing, hfault, definition_eq_none_iff.1 hrule, less, position, hrun⟩
  · rintro ⟨missing, rfl, hmissing, less, position, hrun⟩
    have hcall : Matching.Task.result grammar.definition? (words sentence) less
        (.symbol (.reference missing) position) = .error (.undefinedRule missing) := by
      change (Matching.call grammar.definition? (words sentence) less missing position).result = _
      rw [Matching.call_of_undefined (definition_eq_none_iff.2 hmissing)]
      rfl
    exact Matching.fault_escapes hrun hcall

/-- A name that is called can be reached. -/
theorem Calls.reaches {sentence name called : String} (h : grammar.Calls sentence name called) :
    grammar.Reaches name called := by
  obtain ⟨less, position, hrun⟩ := h
  exact reaches_of_enters hrun called (List.mem_singleton_self called)

/-- An undefined name is refused at once, and nothing is noted or remembered. -/
theorem validate_of_undefined {name : String} (h : grammar.defines name = false)
    (sentence : String) :
    grammar.validate sentence name = (Traced.fail (.undefinedRule name), grammar) := by
  rw [validate, if_neg (by simp [h])]

/-- A defined name that is free of recursion refuses a sentence exactly if the name faults. -/
theorem validate_eq_error_iff (hknows : grammar.Knows grammar.acyclic) {sentence name : String}
    (hdefined : grammar.defines name = true) (hfree : grammar.FreeOfRecursion name)
    {fault : Fault} :
    (grammar.validate sentence name).1.result = .error fault ↔
      ∃ missing, fault = .undefinedRule missing ∧ grammar.defines missing = false ∧
        grammar.Calls sentence name missing := by
  rw [← call_eq_error_iff hfree, result_validate hknows hdefined hfree]
  cases (grammar.call (words sentence) name 0).result <;> simp [Except.map]

/-- A defined name refuses every sentence for a cycle exactly if the search from it finds this
cycle. -/
theorem validate_eq_recursive_iff (hknows : grammar.Knows grammar.acyclic) {sentence name : String}
    (hdefined : grammar.defines name = true) {cycle : List String} :
    (grammar.validate sentence name).1.result = .error (.recursiveRule cycle) ↔
      (grammar.cycleFrom name).1 = some cycle := by
  cases hsearch : (grammar.cycleFrom name).1 with
  | some found =>
      rw [verdict_eq, if_pos hdefined, hsearch]
      simp
  | none =>
      rw [validate_eq_error_iff hknows hdefined (free_of_cycleFrom hknows hsearch)]
      simp

/-- A name is reported as undefined exactly if it is. -/
theorem validate_eq_undefined_iff (hknows : grammar.Knows grammar.acyclic)
    {sentence name : String} :
    (grammar.validate sentence name).1.result = .error (.undefinedRule name) ↔
      grammar.defines name = false := by
  constructor
  · intro h
    by_contra hdefined
    rw [Bool.not_eq_false] at hdefined
    cases hsearch : (grammar.cycleFrom name).1 with
    | some cycle =>
        rw [(validate_eq_recursive_iff hknows hdefined).2 hsearch] at h
        cases h
    | none =>
        have hfree := free_of_cycleFrom hknows hsearch
        obtain ⟨missing, hfault, hmissing, -⟩ := (validate_eq_error_iff hknows hdefined hfree).1 h
        rw [Fault.undefinedRule.inj hfault, hmissing] at hdefined
        cases hdefined
  · intro h
    rw [validate_of_undefined h]
    rfl

omit [UnicodeData] in
/-- The search from a name finds a cycle exactly if a recursive name can be reached. -/
theorem exists_cycleFrom_iff (hknows : grammar.Knows grammar.acyclic) {name : String} :
    (∃ cycle, (grammar.cycleFrom name).1 = some cycle) ↔
      ∃ other, grammar.Reaches name other ∧ grammar.Recursive other := by
  rw [← Option.ne_none_iff_exists', (cycleFrom_agrees hknows name).1, Ne,
    explore_nil_eq_none_iff, FreeOfRecursion]
  simp

/-- After every history, a sentence is refused in these ways and in no other. By an undefined name
it is refused at once. By a defined name from which a recursive name can be reached it is refused
whatever it says, with a cycle that can be reached. By any other name it is refused exactly if the
run calls an undefined name, which is then another one that can be reached: a fault comes out of
all that it happens in, and no other fault can happen. So if all names that can be reached are
defined, the sentence is judged. -/
theorem validation_faults (sources : List (String × String)) (operations : List Operation)
    (sentence name : String) :
    let grammar := run operations (ofSources sources)
    let verdict := (grammar.validate sentence name).1.result
    ((verdict = .error (.undefinedRule name) ↔ grammar.defines name = false) ∧
      (grammar.defines name = false →
        grammar.validate sentence name = (Traced.fail (.undefinedRule name), grammar))) ∧
    (grammar.defines name = true →
      ((∃ cycle, verdict = .error (.recursiveRule cycle)) ↔
        ∃ other, grammar.Reaches name other ∧ grammar.Recursive other) ∧
      ∀ cycle, verdict = .error (.recursiveRule cycle) →
        grammar.IsCycle cycle ∧ ∀ member ∈ cycle, grammar.Reaches name member) ∧
    (grammar.defines name = true → grammar.FreeOfRecursion name →
      (∀ fault, verdict = .error fault → ∃ missing, fault = .undefinedRule missing ∧
        grammar.defines missing = false ∧ missing ≠ name ∧ grammar.Reaches name missing) ∧
      ∀ missing, verdict = .error (.undefinedRule missing) ↔
        grammar.defines missing = false ∧ grammar.Calls sentence name missing) ∧
    (∀ tokens outer inner fault,
      Relation.ReflTransGen (Matching.Enters grammar.definition? tokens) outer inner →
      inner.2.result grammar.definition? tokens inner.1 = .error fault →
      outer.2.result grammar.definition? tokens outer.1 = .error fault) ∧
    (grammar.Usable name → ∃ valid, verdict = .ok valid) := by
  intro grammar verdict
  have hknows : grammar.Knows grammar.acyclic := knows_invariant.run sources operations
  refine ⟨⟨validate_eq_undefined_iff hknows, fun h => validate_of_undefined h sentence⟩,
    fun hdefined => ⟨?_, fun cycle h => ?_⟩, fun hdefined hfree => ⟨fun fault h => ?_, ?_⟩,
    fun _ _ _ _ => Matching.fault_escapes, fun husable => ?_⟩
  · rw [← exists_cycleFrom_iff hknows]
    exact exists_congr fun cycle => validate_eq_recursive_iff hknows hdefined
  · exact isCycle_of_cycleFrom hknows ((validate_eq_recursive_iff hknows hdefined).1 h)
  · obtain ⟨missing, hfault, hmissing, hcalls⟩ := (validate_eq_error_iff hknows hdefined hfree).1 h
    refine ⟨missing, hfault, hmissing, ?_, hcalls.reaches⟩
    rintro rfl
    rw [hmissing] at hdefined
    cases hdefined
  · intro missing
    rw [validate_eq_error_iff hknows hdefined hfree]
    simp
  · cases hverdict : verdict with
    | ok valid => exact ⟨valid, rfl⟩
    | error fault =>
        obtain ⟨missing, -, hmissing, hcalls⟩ :=
          (validate_eq_error_iff hknows (husable.complete name .refl) husable.free).1 hverdict
        rw [husable.complete missing hcalls.reaches] at hmissing
        cases hmissing

end Grammar

end Bnf

namespace Bnf.Grammar

/-- The rules of a grammar in which one name is not defined, and one rule refers to itself. -/
def faultySources : List (String × String) :=
  [("start", "( \"a\" <missing>* | \"b\" )? \"c\""), ("loop", "\"x\" | <loop>"), ("word", "\"w\"")]

/-- The fault of a repetition comes out of a production before another one and of an optional group;
a rule that refers to itself is refused although its first production matches. -/
theorem validation_faults_reached :
    let grammar := run [] (ofSources faultySources)
    (grammar.validate "a c" "start").1.result = .error (.undefinedRule "missing") ∧
      grammar.Reaches "start" "missing" ∧
    (grammar.validate "x" "loop").1.result = .error (.recursiveRule ["loop", "loop"]) ∧
      (∃ other, grammar.Reaches "loop" other ∧ grammar.Recursive other) ∧
    grammar.validate "w" "missing" = (Traced.fail (.undefinedRule "missing"), grammar) ∧
    ∃ valid, (grammar.validate "v" "word").1.result = .ok valid := by
  have hknows :
      (run [] (ofSources faultySources)).Knows (run [] (ofSources faultySources)).acyclic :=
    knows_invariant.run _ []
  have hmissing : ((run [] (ofSources faultySources)).validate "a c" "start").1.result =
      .error (.undefinedRule "missing") := by cbv
  have hloop : ((run [] (ofSources faultySources)).validate "x" "loop").1.result =
      .error (.recursiveRule ["loop", "loop"]) := by cbv
  have hfree : (run [] (ofSources faultySources)).FreeOfRecursion "start" :=
    free_of_cycleFrom hknows (by cbv)
  have husable : (run [] (ofSources faultySources)).Usable "word" :=
    ⟨free_of_cycleFrom hknows (by cbv), complete_of_closed ["word"] (by cbv) (by simp)⟩
  obtain ⟨missing, hfault, -, -, hreaches⟩ :=
    ((validation_faults faultySources [] "a c" "start").2.2.1 (by cbv) hfree).1 _ hmissing
  cases hfault
  exact ⟨hmissing, hreaches, hloop,
    ((validation_faults faultySources [] "x" "loop").2.1 (by cbv)).1.1 ⟨_, hloop⟩,
    (validation_faults faultySources [] "w" "missing").1.2 (by cbv),
    (validation_faults faultySources [] "v" "word").2.2.2.2 husable⟩

end Bnf.Grammar
