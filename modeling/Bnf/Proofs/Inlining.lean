import Bnf.Proofs.Faults
import Bnf.Proofs.ReachableRules
import Bnf.UnicodeData.Version14
import Mathlib

/-!
# Names and groups

Wherever a rule is referred to, its definition may stand as a group instead. `Definition.Inlines`
relates a definition to those in which this was done in some of the places, at any depth, and
`Grammar.Inlines` relates a grammar to those in which it was done in any of the definitions.

The matcher enters the group in place of the rule, with one level of nesting less. So where a match
does not run out of levels, the match of the inlined grammar with as many levels ends in the same
way (`Inlines.call_outlasted`). References of the inlined grammar are ways of one or two references
in the other one, so that inlining closes no cycle (`Inlines.free`). What follows for verdicts is
`inlining_invisible`.
-/

namespace Bnf

/-! ## Runs with more levels -/

namespace Traced

/-- A computation ends because rules are nested too deep, or another one ends in the same way. -/
def Outlasted {α : Type} (run other : Traced α) : Prop :=
  run.result = .error .nestingExceeded ∨ other.result = run.result

/-- Computations in a row end alike, unless one of them ends because rules are nested too deep. -/
theorem outlasted_compatible : Matching.Compatible Outlasted where
  refl run := .inr rfl
  bind := by
    intro α β first second next further hfirst hnext
    rcases hfirst with hexceeded | hsame
    · exact .inl (result_bind_eq_error.2 (.inl hexceeded))
    · rw [Outlasted, result_bind, result_bind, hsame]
      cases first.result with
      | error fault => exact .inr rfl
      | ok value => exact hnext value

end Traced

/-! ## Inlined definitions -/

mutual
/-- In a symbol, some references to a name have become groups of its definition. -/
inductive Symbol.Inlines (name : String) (definition : Definition) : Symbol → Symbol → Prop where
  | same (symbol) : Symbol.Inlines name definition symbol symbol
  | reference : Symbol.Inlines name definition (.reference name) (.group definition)
  | group {alternatives inlined} (h : Definition.Inlines name definition alternatives inlined) :
      Symbol.Inlines name definition (.group alternatives) (.group inlined)
  | optional {body inlined} (h : Symbol.Inlines name definition body inlined) :
      Symbol.Inlines name definition (.optional body) (.optional inlined)
  | repeated {body inlined} (h : Symbol.Inlines name definition body inlined) :
      Symbol.Inlines name definition (.repeated body) (.repeated inlined)

/-- In a production, some references to a name have become groups of its definition. -/
inductive Production.Inlines (name : String) (definition : Definition) :
    List Symbol → List Symbol → Prop where
  | nil : Production.Inlines name definition [] []
  | cons {symbol inlined rest more} (hfirst : Symbol.Inlines name definition symbol inlined)
      (hrest : Production.Inlines name definition rest more) :
      Production.Inlines name definition (symbol :: rest) (inlined :: more)

/-- In a definition, some references to a name have become groups of its definition. -/
inductive Definition.Inlines (name : String) (definition : Definition) :
    List (List Symbol) → List (List Symbol) → Prop where
  | nil : Definition.Inlines name definition [] []
  | cons {production inlined rest more}
      (hfirst : Production.Inlines name definition production inlined)
      (hrest : Definition.Inlines name definition rest more) :
      Definition.Inlines name definition (production :: rest) (inlined :: more)
end

variable {name : String} {definition : Definition}

/-- No reference has to be replaced. -/
theorem Production.inlines_self (production : Production) :
    Production.Inlines name definition production production := by
  induction production with
  | nil => exact .nil
  | cons symbol rest ih => exact .cons (.same symbol) ih

theorem Definition.inlines_self (body : Definition) :
    Definition.Inlines name definition body body := by
  induction body with
  | nil => exact .nil
  | cons production rest ih => exact .cons (Production.inlines_self production) ih

/-- What is referred to in place of this list: one of its names, or by way of the name that is
inlined one of those that its definition refers to. -/
def ReferredVia (name : String) (definition : Definition) (references : List String)
    (reference : String) : Prop :=
  reference ∈ references ∨ (name ∈ references ∧ reference ∈ Definition.references definition)

/-- What is referred to in place of a part of a list is referred to in place of the list. -/
theorem ReferredVia.mono {fewer more : List String} (hsubset : fewer ⊆ more) {reference : String}
    (h : ReferredVia name definition fewer reference) :
    ReferredVia name definition more reference :=
  h.imp (fun hmem => hsubset hmem) fun ⟨hname, hmem⟩ => ⟨hsubset hname, hmem⟩

/-- What is referred to in place of two lists in a row is referred to in place of one of them. -/
theorem referredVia_append {first rest inlined more : List String}
    (hfirst : ∀ reference ∈ inlined, ReferredVia name definition first reference)
    (hrest : ∀ reference ∈ more, ReferredVia name definition rest reference) :
    ∀ reference ∈ inlined ++ more, ReferredVia name definition (first ++ rest) reference := by
  intro reference hmem
  rcases List.mem_append.1 hmem with hmem | hmem
  · exact (hfirst reference hmem).mono (List.subset_append_left _ _)
  · exact (hrest reference hmem).mono (List.subset_append_right _ _)

mutual
/-- Inlining adds no references but those of the definition that is put in. -/
theorem Symbol.Inlines.references : ∀ {symbol inlined : Symbol},
    Symbol.Inlines name definition symbol inlined →
      ∀ reference ∈ inlined.references, ReferredVia name definition symbol.references reference
  | _, _, .same _ => fun _ hmem => .inl hmem
  | _, _, .reference => fun _ hmem => .inr ⟨List.mem_singleton_self name, hmem⟩
  | _, _, .group h => h.references
  | _, _, .optional h => h.references
  | _, _, .repeated h => h.references

theorem Production.Inlines.references : ∀ {production inlined : List Symbol},
    Production.Inlines name definition production inlined →
      ∀ reference ∈ Production.references inlined,
        ReferredVia name definition (Production.references production) reference
  | _, _, .nil => List.forall_mem_nil _
  | _, _, .cons hfirst hrest => referredVia_append hfirst.references hrest.references

theorem Definition.Inlines.references : ∀ {body inlined : List (List Symbol)},
    Definition.Inlines name definition body inlined →
      ∀ reference ∈ Definition.references inlined,
        ReferredVia name definition (Definition.references body) reference
  | _, _, .nil => List.forall_mem_nil _
  | _, _, .cons hfirst hrest => referredVia_append hfirst.references hrest.references
end

variable [UnicodeData]

section Matches

variable {tokens : List String} {call other : String → Int → Traced (Option Int)}

mutual
/-- A symbol and its inlined form end alike, with the modifier and without, if calls do and if the
definition that is put in ends as the call of its name. -/
theorem Symbol.Inlines.match_outlasted
    (hcall : ∀ reference position, (call reference position).Outlasted (other reference position))
    (hname : ∀ position,
      (call name position).Outlasted (Definition.matchAt tokens other definition position)) :
    ∀ {symbol inlined : Symbol}, Symbol.Inlines name definition symbol inlined → ∀ start,
      (Symbol.matchAt tokens call symbol start).Outlasted
        (Symbol.matchAt tokens other inlined start) ∧
      (Symbol.matchModified tokens call symbol start).Outlasted
        (Symbol.matchModified tokens other inlined start)
  | _, _, .same symbol => fun start =>
    Symbol.matches_related Traced.outlasted_compatible symbol
      (fun reference _ position => hcall reference position) start
  | _, _, .reference => fun start => ⟨hname start, hname start⟩
  | _, _, .group h => fun start =>
    ⟨h.match_outlasted hcall hname start, h.match_outlasted hcall hname start⟩
  | _, _, .optional h => fun start => by
    have hbody := (h.match_outlasted hcall hname start).1
    refine ⟨.inr rfl, ?_⟩
    rw [Symbol.matchModified, Symbol.matchModified, ← bind_pure_comp, ← bind_pure_comp]
    exact Traced.outlasted_compatible.bind hbody fun next => .inr rfl
  | _, _, .repeated h => fun start => by
    have hbody := fun position => (h.match_outlasted hcall hname position).1
    refine ⟨.inr rfl, ?_⟩
    rw [Symbol.matchModified, Symbol.matchModified, ← bind_pure_comp, ← bind_pure_comp]
    exact Traced.outlasted_compatible.bind
      (Matching.advance_related Traced.outlasted_compatible hbody _ start) fun next => .inr rfl

theorem Production.Inlines.match_outlasted
    (hcall : ∀ reference position, (call reference position).Outlasted (other reference position))
    (hname : ∀ position,
      (call name position).Outlasted (Definition.matchAt tokens other definition position)) :
    ∀ {production inlined : List Symbol}, Production.Inlines name definition production inlined →
      ∀ start, (Production.matchAt tokens call production start).Outlasted
        (Production.matchAt tokens other inlined start)
  | _, _, .nil => fun _ => .inr rfl
  | _, _, .cons hfirst hrest => fun start => by
    rw [Production.matchAt_cons, Production.matchAt_cons]
    refine Traced.outlasted_compatible.bind (hfirst.match_outlasted hcall hname start).2
      fun next => ?_
    cases next with
    | none => exact .inr rfl
    | some middle => exact hrest.match_outlasted hcall hname middle

theorem Definition.Inlines.match_outlasted
    (hcall : ∀ reference position, (call reference position).Outlasted (other reference position))
    (hname : ∀ position,
      (call name position).Outlasted (Definition.matchAt tokens other definition position)) :
    ∀ {body inlined : List (List Symbol)}, Definition.Inlines name definition body inlined →
      ∀ start, (Definition.matchAt tokens call body start).Outlasted
        (Definition.matchAt tokens other inlined start)
  | _, _, .nil => fun _ => .inr rfl
  | _, _, .cons hfirst hrest => fun start => by
    rw [Definition.matchAt, Definition.matchAt]
    refine Traced.outlasted_compatible.bind (hfirst.match_outlasted hcall hname start)
      fun finish => ?_
    cases finish with
    | none => exact hrest.match_outlasted hcall hname start
    | some position => exact .inr rfl
end

end Matches

namespace Grammar

/-- Another grammar defines the same names, and in its definitions some references to a name have
become groups of the name's definition. -/
def Inlines (name : String) (definition : Definition) (grammar other : Grammar) : Prop :=
  ∀ target, Option.Rel (Definition.Inlines name definition) (grammar.definition? target)
    (other.definition? target)

variable {grammar other : Grammar}

/-! ## Ways along references -/

omit [UnicodeData] in
/-- A reference of the inlined grammar is a way along references of the other one. -/
theorem Inlines.leads (h : Inlines name definition grammar other)
    (hname : grammar.definition? name = some definition) {target reference : String}
    (hrefers : other.Refers target reference) :
    Relation.TransGen grammar.Refers target reference := by
  obtain ⟨found, hfound, hmem⟩ := hrefers
  rcases definition_rel_cases (h target) with ⟨-, hother⟩ | ⟨body, inlined, hbody, hother, hinlines⟩
  · rw [hother] at hfound
    cases hfound
  · rw [hother] at hfound
    cases hfound
    rcases hinlines.references reference hmem with hreference | ⟨hmiddle, hreference⟩
    · exact .single (refers_of_definition hbody hreference)
    · exact .tail (.single (refers_of_definition hbody hmiddle))
        (refers_of_definition hname hreference)

omit [UnicodeData] in
/-- A name that is free of recursion stays so when another name is inlined. -/
theorem Inlines.free (h : Inlines name definition grammar other)
    (hname : grammar.definition? name = some definition) {rule : String}
    (hfree : grammar.FreeOfRecursion rule) : other.FreeOfRecursion rule :=
  hfree.of_leads fun hrefers => h.leads hname hrefers

/-! ## Runs -/

/-- A call ends because rules are nested too deep, or it ends alike in the inlined grammar, with as
many levels or more. -/
theorem Inlines.call_outlasted (h : Inlines name definition grammar other)
    (hname : grammar.definition? name = some definition) (tokens : List String) {bound more : Nat}
    (hmore : bound ≤ more) (called : String) (start : Int) :
    (Matching.call grammar.definition? tokens bound called start).Outlasted
      (Matching.call other.definition? tokens more called start) := by
  -- The definition that is put in is matched with two levels less than the call around it.
  induction bound using Nat.strong_induction_on generalizing more called start with
  | _ bound ih =>
      rcases definition_rel_cases (h called) with
        ⟨hnone, hother⟩ | ⟨body, inlined, hbody, hother, hinlines⟩
      · rw [Matching.call_of_undefined hnone, Matching.call_of_undefined hother]
        exact .inr rfl
      · cases bound with
        | zero =>
            rw [Matching.call, hbody]
            exact .inl rfl
        | succ less =>
            obtain ⟨further, rfl⟩ := Nat.exists_eq_succ_of_ne_zero (Nat.ne_zero_of_lt hmore)
            have hless : less ≤ further := Nat.le_of_succ_le_succ hmore
            have hcall (reference : String) (position : Int) :=
              ih less (Nat.lt_succ_self less) hless reference position
            have hgroup (position : Int) :
                (Matching.call grammar.definition? tokens less name position).Outlasted
                  (Definition.matchAt tokens (Matching.call other.definition? tokens further)
                    definition position) := by
              cases less with
              | zero =>
                  rw [Matching.call, hname]
                  exact .inl rfl
              | succ least =>
                  rw [Traced.Outlasted, Matching.result_call_succ hname]
                  exact Definition.match_related Traced.outlasted_compatible
                    (fun reference _ place => ih least (by omega) (by omega) reference place)
                    position
            rw [Traced.Outlasted, Matching.result_call_succ hbody,
              Matching.result_call_succ hother]
            exact hinlines.match_outlasted hcall hgroup start

/-- A name that is free of recursion matches alike in the inlined grammar. -/
theorem Inlines.result_call_eq (h : Inlines name definition grammar other)
    (hname : grammar.definition? name = some definition) {rule : String}
    (hfree : grammar.FreeOfRecursion rule) (tokens : List String) (start : Int) :
    (other.call tokens rule start).result = (grammar.call tokens rule start).result := by
  obtain ⟨bound, hbound, hotherBound⟩ :=
    exists_common_bound hfree (h.free hname hfree) tokens start
  have hends : (grammar.call tokens rule start).result ≠ .error .nestingExceeded :=
    (call_guarded (descends_nil hfree) (length_le_nestingBound start) start).ends
  rw [hbound] at hends
  rw [hbound, hotherBound]
  exact (h.call_outlasted hname tokens (Nat.le_refl bound) rule start).resolve_left hends

/-! ## Verdicts -/

/-- A name that is free of recursion judges every sentence alike in the inlined grammar. -/
theorem Inlines.result_validate_eq (h : Inlines name definition grammar other)
    (hname : grammar.definition? name = some definition) (hknows : grammar.Knows grammar.acyclic)
    (hother : other.Knows other.acyclic) {rule : String} (hfree : grammar.FreeOfRecursion rule)
    (sentence : String) :
    (other.validate sentence rule).1.result = (grammar.validate sentence rule).1.result := by
  have hdefines : other.defines rule = grammar.defines rule := defines_eq_of_rel (h rule)
  cases hdefined : grammar.defines rule with
  | false =>
      rw [validate_of_undefined hdefined, validate_of_undefined (hdefines.trans hdefined)]
  | true =>
      rw [result_validate hknows hdefined hfree,
        result_validate hother (hdefines.trans hdefined) (h.free hname hfree),
        h.result_call_eq hname hfree]

/-- A name that is free of recursion judges a sentence, or calls an undefined name. -/
theorem judged_or_undefined (hknows : grammar.Knows grammar.acyclic) {rule : String}
    (hfree : grammar.FreeOfRecursion rule) (sentence : String) :
    (∃ valid, (grammar.validate sentence rule).1.result = .ok valid) ∨
      ∃ missing, (grammar.validate sentence rule).1.result = .error (.undefinedRule missing) := by
  cases hdefined : grammar.defines rule with
  | false => exact .inr ⟨rule, (validate_eq_undefined_iff hknows).2 hdefined⟩
  | true =>
      cases hverdict : (grammar.validate sentence rule).1.result with
      | ok valid => exact .inl ⟨valid, rfl⟩
      | error fault =>
          obtain ⟨missing, rfl, -⟩ := (validate_eq_error_iff hknows hdefined hfree).1 hverdict
          exact .inr ⟨missing, rfl⟩

/-- After every history, and in a grammar of any other history in which the same names are defined
and some references to a name have become groups of its definition, in whatever rules, groups and
below whatever modifiers: a name from which no cycle is found in the first grammar leads to none in
the second, and the two judge every sentence alike by it, or refuse it for the same undefined
name. -/
theorem inlining_invisible (sources otherSources : List (String × String))
    (operations otherOperations : List Operation) (name : String) (definition : Definition) :
    let grammar := run operations (ofSources sources)
    let other := run otherOperations (ofSources otherSources)
    grammar.definition? name = some definition → Inlines name definition grammar other →
    ∀ rule, (grammar.cycleFrom rule).1 = none →
      (other.cycleFrom rule).1 = none ∧
      ∀ sentence,
        (other.validate sentence rule).1.result = (grammar.validate sentence rule).1.result ∧
        ((∃ valid, (grammar.validate sentence rule).1.result = .ok valid) ∨
          ∃ missing,
            (grammar.validate sentence rule).1.result = .error (.undefinedRule missing)) := by
  intro grammar other hname hinlines rule hnone
  have hknows : grammar.Knows grammar.acyclic := knows_invariant.run sources operations
  have hother : other.Knows other.acyclic := knows_invariant.run otherSources otherOperations
  have hfree : grammar.FreeOfRecursion rule := free_of_cycleFrom hknows hnone
  exact ⟨cycleFrom_of_free hother (hinlines.free hname hfree), fun sentence =>
    ⟨hinlines.result_validate_eq hname hknows hother hfree sentence,
      judged_or_undefined hknows hfree sentence⟩⟩

end Grammar

end Bnf

namespace Bnf.Grammar

/-- Three references to a rule that itself refers to a missing one. -/
def wordy : Grammar :=
  run [] (ofSources
    [("start", "\"a\" <word>* | ( <word>? \"b\" ) <word>"), ("word", "\"x\" | \"y\" <missing>")])

/-- The same rules, of which the first has the definition of the other for two of the references,
one below a modifier and one below a modifier inside of a group. -/
def grouped : Grammar :=
  run [.validate "a x" "start", .insert "start" ("\"a\" ( \"x\" | \"y\" <missing> )* " ++
    "| ( ( \"x\" | \"y\" <missing> )? \"b\" ) <word>")] (ofSources
    [("start", "\"a\" <word>* | ( <word>? \"b\" ) <word>"), ("word", "\"x\" | \"y\" <missing>")])

/-- Groups in place of references accept a sentence and refuse another one, as the references do. -/
theorem inlining_invisible_words :
    wordy.definition? "word" = some [[.terminal "x"], [.terminal "y", .reference "missing"]] ∧
    Inlines "word" [[.terminal "x"], [.terminal "y", .reference "missing"]] wordy grouped ∧
    (wordy.cycleFrom "start").1 = none ∧ (grouped.cycleFrom "start").1 = none ∧
    (grouped.validate "a x x" "start").1.result = .ok true ∧
    (grouped.validate "b y" "start").1.result = .error (.undefinedRule "missing") := by
  have hname : wordy.definition? "word" =
      some [[.terminal "x"], [.terminal "y", .reference "missing"]] := by cbv
  have hstart : wordy.definition? "start" =
      some [[.terminal "a", .repeated (.reference "word")],
        [.group [[.optional (.reference "word"), .terminal "b"]], .reference "word"]] := by cbv
  have hgrouped : Definition.tree ("\"a\" ( \"x\" | \"y\" <missing> )* " ++
      "| ( ( \"x\" | \"y\" <missing> )? \"b\" ) <word>").toList =
      [[.terminal "a", .repeated (.group [[.terminal "x"], [.terminal "y", .reference "missing"]])],
        [.group [[.optional (.group [[.terminal "x"], [.terminal "y", .reference "missing"]]),
          .terminal "b"]], .reference "word"]] := by cbv
  have hinlines :
      Inlines "word" [[.terminal "x"], [.terminal "y", .reference "missing"]] wordy grouped := by
    intro target
    have hrules : (wordy.validate "a x" "start").2.definition? = wordy.definition? := by
      funext other
      rw [definition?, definition?, rules_validate]
    show Option.Rel _ _ (((wordy.validate "a x" "start").2.insert "start" _).2.definition? target)
    rw [definition_insert, hrules]
    split
    · rename_i htarget
      rw [htarget.1, hstart, hgrouped]
      have hgroup : Production.Inlines "word"
          [[.terminal "x"], [.terminal "y", .reference "missing"]]
          [.optional (.reference "word"), .terminal "b"] [.optional (.group _), .terminal "b"] :=
        .cons (.optional .reference) (.cons (.same _) .nil)
      exact .some (.cons (.cons (.same _) (.cons (.repeated .reference) .nil))
        (.cons (.cons (.group (.cons hgroup .nil)) (.cons (.same _) .nil)) .nil))
    · cases wordy.definition? target with
      | none => exact .none
      | some definition => exact .some (Definition.inlines_self definition)
  have hnone : (wordy.cycleFrom "start").1 = none := by cbv
  have haccepted : (wordy.validate "a x x" "start").1.result = .ok true := by cbv
  have hrefused : (wordy.validate "b y" "start").1.result = .error (.undefinedRule "missing") := by
    cbv
  obtain ⟨hother, hverdicts⟩ :=
    inlining_invisible _ _ _ _ "word" _ hname hinlines "start" hnone
  exact ⟨hname, hinlines, hnone, hother, (hverdicts "a x x").1.trans haccepted,
    (hverdicts "b y").1.trans hrefused⟩

end Bnf.Grammar
