import Bnf.Proofs.OrderedChoice
import Bnf.Proofs.ReachableRules
import Bnf.UnicodeData.Version14
import Mathlib

/-!
# Alternatives that are never tried

A production that matches when no tokens are left cannot fail to match anywhere else: nothing in it
demands a token, and greed only makes it consume more. So the empty input decides whether a match
can ever fail. `NeverMisses` says this of a way to match, and is carried from what is called to
symbols, productions and definitions, and from there to the calls again, whatever the rules are.

An alternative behind one that never fails is never tried. A definition is trimmed by leaving out
such alternatives, of its own or of its groups (`Definition.Trims`), and a grammar by trimming its
definitions (`Grammar.Trims`). No match of a trimmed grammar differs from that of the whole one, not
even in its trace (`Trims.call_eq`). Both together are `empty_input_decides`.
-/

namespace Bnf

namespace Matching

/-- A run that ends in a match. -/
def Succeeds (run : Traced (Option Int)) : Prop :=
  ∃ finish, run.result = .ok (some finish)

/-- A way to match that matches from every start, unless it ends in a fault. -/
def NeverMisses (match? : Int → Traced (Option Int)) : Prop :=
  ∀ start, (match? start).result ≠ .ok none

/-- What is mapped to a match is never missed. -/
theorem never_misses_map {α : Type} (finish : Int → α → Int) (match? : Int → Traced α) :
    NeverMisses fun start => (fun value => some (finish start value)) <$> match? start := by
  intro start h
  rw [Traced.result_map] at h
  cases hrun : (match? start).result with
  | error fault =>
      rw [hrun] at h
      cases h
  | ok value =>
      rw [hrun] at h
      cases h

end Matching

open Matching

variable [UnicodeData]

section Empty

variable {tokens : List String} {call other : String → Int → Traced (Option Int)}

/-- If a symbol matches without tokens it is never missed among others, with its modifier and
without. -/
def Symbol.MissedNowhere (tokens : List String) (call other : String → Int → Traced (Option Int))
    (symbol : Symbol) : Prop :=
  ∀ position : Int, 0 ≤ position →
    (Succeeds (Symbol.matchAt [] call symbol position) →
      NeverMisses (Symbol.matchAt tokens other symbol)) ∧
    (Succeeds (Symbol.matchModified [] call symbol position) →
      NeverMisses (Symbol.matchModified tokens other symbol))

omit [UnicodeData] in
/-- Without tokens no token is found. -/
theorem Matching.not_succeeds_one_token {symbol : Symbol} {accepts : String → Bool}
    {position : Int} (hposition : 0 ≤ position) :
    ¬ Succeeds (oneToken [] symbol accepts position) := by
  rintro ⟨finish, hfinish⟩
  have hinside := (one_token_eq_some hfinish).1
  simp at hinside
  omega

/-- A production that matches without tokens is never missed if its symbols are not. -/
theorem Production.never_misses (hforward : ∀ name, Forward (call name)) {production : Production}
    (hsymbols : ∀ symbol ∈ production, symbol.MissedNowhere tokens call other) {position : Int}
    (hposition : 0 ≤ position) (h : Succeeds (Production.matchAt [] call production position)) :
    NeverMisses (Production.matchAt tokens other production) := by
  induction production generalizing position with
  | nil =>
      intro start hnone
      cases hnone
  | cons symbol rest ih =>
      obtain ⟨finish, hfinish⟩ := h
      obtain ⟨middle, hfirst, hrest⟩ := Production.match_cons_eq_some hfinish
      have hmiddle := (Symbol.match_forward hforward symbol).2 position middle hfirst
      have hnever := (hsymbols symbol List.mem_cons_self position hposition).2 ⟨middle, hfirst⟩
      intro start hnone
      rw [Production.matchAt_cons] at hnone
      obtain ⟨next, hnext, hlater⟩ := Traced.result_bind_eq_ok.1 hnone
      cases next with
      | none => exact hnever start hnext
      | some further =>
          exact ih (fun s hs => hsymbols s (List.mem_cons_of_mem symbol hs))
            (by omega : 0 ≤ middle) ⟨finish, hrest⟩ further hlater

/-- A definition is never missed if one of its productions is not. -/
theorem Definition.never_misses_of_mem {definition : Definition} {production : Production}
    (hmem : production ∈ definition)
    (h : NeverMisses (Production.matchAt tokens other production)) :
    NeverMisses (Definition.matchAt tokens other definition) := by
  intro start hnone
  induction definition with
  | nil => cases hmem
  | cons first rest ih =>
      rw [Definition.matchAt] at hnone
      obtain ⟨finish, hfirst, hlater⟩ := Traced.result_bind_eq_ok.1 hnone
      cases finish with
      | none =>
          rcases List.mem_cons.1 hmem with rfl | hmem
          · exact h start hfirst
          · exact ih hmem hlater
      | some position => cases hlater

/-- A definition that matches without tokens is never missed if its symbols are not. -/
theorem Definition.never_misses (hforward : ∀ name, Forward (call name)) {definition : Definition}
    (hsymbols : ∀ production ∈ definition, ∀ symbol ∈ production,
      symbol.MissedNowhere tokens call other) {position : Int} (hposition : 0 ≤ position)
    (h : Succeeds (Definition.matchAt [] call definition position)) :
    NeverMisses (Definition.matchAt tokens other definition) := by
  obtain ⟨finish, hfinish⟩ := h
  obtain ⟨production, hmem, hmatch⟩ := Definition.match_eq_some hfinish
  exact Definition.never_misses_of_mem hmem
    (Production.never_misses hforward (hsymbols production hmem) hposition ⟨finish, hmatch⟩)

/-- A symbol that matches without tokens is never missed if the calls of names that match without
tokens are not. -/
theorem Symbol.missed_nowhere (hforward : ∀ name, Forward (call name))
    (hcall : ∀ name (position : Int), 0 ≤ position → Succeeds (call name position) →
      NeverMisses (other name)) (symbol : Symbol) : symbol.MissedNowhere tokens call other := by
  have hunmatchable (body : Symbol) : ¬ Succeeds (do
      Traced.record (.unmatchable body)
      return none) := by
    rintro ⟨finish, h⟩
    cases h
  induction symbol using Symbol.induction with
  | terminal literal =>
      intro position hposition
      have hnot : ¬ Succeeds (oneToken [] (.terminal literal) (· == literal) position) :=
        not_succeeds_one_token hposition
      exact ⟨fun h => absurd h hnot, fun h => absurd h hnot⟩
  | charClass pattern =>
      intro position hposition
      have hnot : ¬ Succeeds (oneToken [] (.charClass pattern) (patternAccepts pattern) position) :=
        not_succeeds_one_token hposition
      exact ⟨fun h => absurd h hnot, fun h => absurd h hnot⟩
  | unknown code =>
      exact fun _ _ => ⟨fun h => absurd h (hunmatchable _), fun h => absurd h (hunmatchable _)⟩
  | reference name =>
      exact fun position hposition => ⟨hcall name position hposition, hcall name position hposition⟩
  | group alternatives ih =>
      intro position hposition
      have hgroup := Definition.never_misses hforward ih hposition
      exact ⟨hgroup, hgroup⟩
  | optional body ih =>
      refine fun _ _ => ⟨fun h => absurd h (hunmatchable _), fun _ => ?_⟩
      exact never_misses_map (fun start next => next.getD start) (Symbol.matchAt tokens other body)
  | repeated body ih =>
      refine fun _ _ => ⟨fun h => absurd h (hunmatchable _), fun _ => ?_⟩
      exact never_misses_map (fun _ finish => finish)
        (Matching.advance (Symbol.matchAt tokens other body) tokens.length)

end Empty

/-- A name that matches without tokens is never missed, however deep rules may be nested. -/
theorem Matching.call_never_misses {rules : String → Option Definition} {less : Nat} {name : String}
    {position : Int} (hposition : 0 ≤ position)
    (h : Succeeds (Matching.call rules [] less name position)) (tokens : List String)
    (bound : Nat) : NeverMisses (Matching.call rules tokens bound name) := by
  induction bound generalizing less name position with
  | zero =>
      intro start hnone
      rw [Matching.call] at hnone
      split at hnone <;> cases hnone
  | succ bound ih =>
      obtain ⟨finish, hfinish⟩ := h
      obtain ⟨definition, inner, hrule, rfl, hmatch⟩ := Matching.call_eq_some hfinish
      intro start
      rw [Matching.result_call_succ hrule]
      refine Definition.never_misses (Matching.call_forward rules inner)
        (fun _ _ symbol _ => Symbol.missed_nowhere (Matching.call_forward rules inner) ?_ symbol)
        hposition ⟨finish, hmatch⟩ start
      exact fun reference position hposition h => ih hposition h

/-! ## Trimmed definitions -/

/-- Behind a production that is never missed it does not matter which alternatives follow. -/
theorem Definition.match_append_of_never_misses {tokens : List String}
    {call : String → Int → Traced (Option Int)} {production : Production}
    (h : NeverMisses (Production.matchAt tokens call production)) (first later fewer : Definition)
    (start : Int) :
    Definition.matchAt tokens call (first ++ production :: later) start =
      Definition.matchAt tokens call (first ++ production :: fewer) start := by
  induction first with
  | nil =>
      show Definition.matchAt _ _ (production :: later) start =
        Definition.matchAt _ _ (production :: fewer) start
      rw [Definition.matchAt, Definition.matchAt]
      refine Traced.bind_congr fun finish hfinish => ?_
      cases finish with
      | none => exact absurd hfinish (h start)
      | some position => rfl
  | cons other rest ih =>
      rw [List.cons_append, List.cons_append, Definition.matchAt, Definition.matchAt, ih]

mutual
/-- Of the groups of a symbol, alternatives have been left out behind one that matches without
tokens. -/
inductive Symbol.Trims (grammar : Grammar) : Symbol → Symbol → Prop where
  | same (symbol) : Symbol.Trims grammar symbol symbol
  | group {alternatives trimmed} (h : Definition.Trims grammar alternatives trimmed) :
      Symbol.Trims grammar (.group alternatives) (.group trimmed)
  | optional {body trimmed} (h : Symbol.Trims grammar body trimmed) :
      Symbol.Trims grammar (.optional body) (.optional trimmed)
  | repeated {body trimmed} (h : Symbol.Trims grammar body trimmed) :
      Symbol.Trims grammar (.repeated body) (.repeated trimmed)

/-- Of the groups of a production, alternatives have been left out behind one that matches without
tokens. -/
inductive Production.Trims (grammar : Grammar) : List Symbol → List Symbol → Prop where
  | nil : Production.Trims grammar [] []
  | cons {symbol trimmed rest fewer} (hfirst : Symbol.Trims grammar symbol trimmed)
      (hrest : Production.Trims grammar rest fewer) :
      Production.Trims grammar (symbol :: rest) (trimmed :: fewer)

/-- Of a definition or of its groups, alternatives have been left out behind one that matches
without tokens. -/
inductive Definition.Trims (grammar : Grammar) :
    List (List Symbol) → List (List Symbol) → Prop where
  | nil : Definition.Trims grammar [] []
  | cons {production trimmed rest fewer} (hfirst : Production.Trims grammar production trimmed)
      (hrest : Definition.Trims grammar rest fewer) :
      Definition.Trims grammar (production :: rest) (trimmed :: fewer)
  | dead {production trimmed rest fewer} (hfirst : Production.Trims grammar production trimmed)
      (hempty : Succeeds (Production.matchAt [] (grammar.call []) production 0))
      (hrest : fewer.Sublist rest) :
      Definition.Trims grammar (production :: rest) (trimmed :: fewer)
end

/-- Another grammar defines the same names, and has trimmed definitions. -/
def Grammar.Trims (grammar other : Grammar) : Prop :=
  ∀ name, Option.Rel (Definition.Trims grammar) (grammar.definition? name) (other.definition? name)

variable {grammar other : Grammar}

/-- Nothing has to be left out. -/
theorem Production.trims_self (production : Production) :
    Production.Trims grammar production production := by
  induction production with
  | nil => exact .nil
  | cons symbol rest ih => exact .cons (.same symbol) ih

theorem Definition.trims_self (definition : Definition) :
    Definition.Trims grammar definition definition := by
  induction definition with
  | nil => exact .nil
  | cons production rest ih => exact .cons (Production.trims_self production) ih

/-- An alternative may be left out behind one that matches without tokens. -/
theorem Definition.trims_append {production : Production}
    (hempty : Succeeds (Production.matchAt [] (grammar.call []) production 0)) (first : Definition)
    {later fewer : Definition} (h : fewer.Sublist later) :
    Definition.Trims grammar (first ++ production :: later) (first ++ production :: fewer) := by
  induction first with
  | nil => exact .dead (Production.trims_self production) hempty h
  | cons other rest ih => exact .cons (Production.trims_self other) ih

omit [UnicodeData] in
/-- Two lists in a row lie in two others in a row if each lies in its counterpart. -/
theorem append_subset_append {first second more rest : List String} (hfirst : first ⊆ second)
    (hrest : more ⊆ rest) : first ++ more ⊆ second ++ rest :=
  List.append_subset.2 ⟨List.subset_append_of_subset_left _ hfirst,
    List.subset_append_of_subset_right _ hrest⟩

mutual
/-- Trimming adds no references. -/
theorem Symbol.Trims.references_subset :
    ∀ {symbol trimmed : Symbol}, Symbol.Trims grammar symbol trimmed →
      trimmed.references ⊆ symbol.references
  | _, _, .same symbol => List.Subset.refl symbol.references
  | _, _, .group h => h.references_subset
  | _, _, .optional h => h.references_subset
  | _, _, .repeated h => h.references_subset

theorem Production.Trims.references_subset :
    ∀ {production trimmed : List Symbol}, Production.Trims grammar production trimmed →
      Production.references trimmed ⊆ Production.references production
  | _, _, .nil => List.Subset.refl _
  | _, _, .cons hfirst hrest =>
    append_subset_append hfirst.references_subset hrest.references_subset

theorem Definition.Trims.references_subset :
    ∀ {definition trimmed : List (List Symbol)}, Definition.Trims grammar definition trimmed →
      Definition.references trimmed ⊆ Definition.references definition
  | _, _, .nil => List.Subset.refl _
  | _, _, .cons hfirst hrest =>
    append_subset_append hfirst.references_subset hrest.references_subset
  | _, _, .dead hfirst _ hrest =>
    append_subset_append hfirst.references_subset (by
      rw [Definition.references_eq_flatMap, Definition.references_eq_flatMap]
      exact (hrest.flatMap Production.references).subset)
end

/-! ## Trimmed grammars -/

/-- A symbol without a modifier has none after trimming. -/
theorem Symbol.Trims.isBase {symbol trimmed : Symbol} (h : Symbol.Trims grammar symbol trimmed)
    (hbase : symbol.IsBase) : trimmed.IsBase := by
  cases h with
  | same => exact hbase
  | group => trivial
  | optional | repeated => cases hbase

section Trimmed

variable {tokens : List String} {call : String → Int → Traced (Option Int)}

/-- With its modifier, a symbol is matched as each of its trimmed forms. -/
def Symbol.MatchesTrimmed (grammar : Grammar) (tokens : List String)
    (call : String → Int → Traced (Option Int)) (symbol : Symbol) : Prop :=
  ∀ trimmed, Symbol.Trims grammar symbol trimmed →
    Symbol.matchModified tokens call symbol = Symbol.matchModified tokens call trimmed

/-- What is modified is matched as its trimmed form if it has no modifier of its own. -/
theorem Symbol.MatchesTrimmed.of_base {body trimmed : Symbol}
    (h : body.MatchesTrimmed grammar tokens call) (hbase : body.IsBase)
    (htrims : Symbol.Trims grammar body trimmed) :
    Symbol.matchAt tokens call body = Symbol.matchAt tokens call trimmed := by
  have hsame := h trimmed htrims
  rwa [hbase.matchModified_eq, (htrims.isBase hbase).matchModified_eq] at hsame

/-- A production is matched as its trimmed form if its symbols are. -/
theorem Production.Trims.match_eq {production trimmed : Production}
    (h : Production.Trims grammar production trimmed)
    (hsymbols : ∀ symbol ∈ production, symbol.MatchesTrimmed grammar tokens call) :
    Production.matchAt tokens call production = Production.matchAt tokens call trimmed := by
  funext start
  induction production generalizing trimmed start with
  | nil =>
      cases h
      rfl
  | cons symbol rest ih =>
      cases h with
      | cons hfirst hrest =>
          have hsame := hsymbols symbol List.mem_cons_self _ hfirst
          have hmore := ih hrest fun s hs => hsymbols s (List.mem_cons_of_mem symbol hs)
          rw [Production.matchAt_cons, Production.matchAt_cons, hsame]
          simp only [hmore]

/-- A definition is matched as its trimmed form if its symbols are, and if nothing is missed that
matches without tokens. -/
theorem Definition.Trims.match_eq
    (hempty : ∀ production : Production,
      Succeeds (Production.matchAt [] (grammar.call []) production 0) →
      NeverMisses (Production.matchAt tokens call production)) {definition trimmed : Definition}
    (h : Definition.Trims grammar definition trimmed)
    (hsymbols : ∀ production ∈ definition, ∀ symbol ∈ production,
      symbol.MatchesTrimmed grammar tokens call) :
    Definition.matchAt tokens call definition = Definition.matchAt tokens call trimmed := by
  funext start
  induction definition generalizing trimmed with
  | nil =>
      cases h
      rfl
  | cons production rest ih =>
      cases h with
      | cons hfirst hrest =>
          have hsame := hfirst.match_eq (hsymbols production List.mem_cons_self)
          have hmore := ih hrest fun later hlater =>
            hsymbols later (List.mem_cons_of_mem production hlater)
          rw [Definition.matchAt, Definition.matchAt, hsame, hmore]
      | @dead _ trimmed _ fewer hfirst hproduction _ =>
          -- What follows the production is never tried, neither the whole nor what is left of it.
          have hsame := hfirst.match_eq (hsymbols production List.mem_cons_self)
          have hdead := Definition.match_append_of_never_misses (hempty production hproduction) []
            rest fewer start
          refine hdead.trans ?_
          show Definition.matchAt tokens call (production :: fewer) start = _
          rw [Definition.matchAt, Definition.matchAt, hsame]

/-- If no modified symbol is modified in it, a symbol is matched as its trimmed forms. -/
theorem Symbol.Unstacked.matches_trimmed
    (hempty : ∀ production : Production,
      Succeeds (Production.matchAt [] (grammar.call []) production 0) →
      NeverMisses (Production.matchAt tokens call production)) {symbol : Symbol}
    (hunstacked : symbol.Unstacked) : symbol.MatchesTrimmed grammar tokens call := by
  induction hunstacked with
  | group _ ih =>
      intro trimmed h
      cases h with
      | same => rfl
      | group h => exact h.match_eq hempty ih
  | optional hbase _ ih =>
      intro trimmed h
      cases h with
      | same => rfl
      | optional h =>
          funext start
          rw [Symbol.matchModified, Symbol.matchModified, ih.of_base hbase h]
  | repeated hbase _ ih =>
      intro trimmed h
      cases h with
      | same => rfl
      | repeated h =>
          funext start
          rw [Symbol.matchModified, Symbol.matchModified, ih.of_base hbase h]
  | _ =>
      intro trimmed h
      cases h
      rfl

end Trimmed

namespace Grammar

/-- Calls run forward, whatever the start. -/
theorem call_forward (grammar : Grammar) (tokens : List String) (name : String) :
    Forward (grammar.call tokens name) :=
  fun start finish h => Matching.call_forward grammar.definition? _ name start finish h

/-- A name that matches without tokens is never missed. -/
theorem call_never_misses {name : String} {position : Int} (hposition : 0 ≤ position)
    (h : Succeeds (grammar.call [] name position)) (tokens : List String) :
    NeverMisses (grammar.call tokens name) :=
  fun start => Matching.call_never_misses hposition h tokens _ start

/-- A production that matches without tokens is never missed if the names are not that match without
tokens. -/
theorem never_misses_of_empty {tokens : List String} {call : String → Int → Traced (Option Int)}
    (hcall : ∀ name (position : Int), 0 ≤ position → Succeeds (grammar.call [] name position) →
      NeverMisses (call name)) {production : Production}
    (h : Succeeds (Production.matchAt [] (grammar.call []) production 0)) :
    NeverMisses (Production.matchAt tokens call production) :=
  Production.never_misses (grammar.call_forward [])
    (fun symbol _ => Symbol.missed_nowhere (grammar.call_forward []) hcall symbol)
    (Int.le_refl 0) h

/-- Trimming the definitions does not change what is called, however deep rules may be nested. -/
theorem Trims.call_eq (h : grammar.Trims other) (hconsistent : grammar.Consistent)
    (tokens : List String) (bound : Nat) :
    Matching.call other.definition? tokens bound =
      Matching.call grammar.definition? tokens bound := by
  induction bound with
  | zero =>
      funext name start
      rw [Matching.call, Matching.call]
      rcases definition_rel_cases (h name) with
        ⟨hnone, hother⟩ | ⟨definition, trimmed, hdefinition, hother, -⟩
      · rw [hnone, hother]
      · rw [hdefinition, hother]
  | succ bound ih =>
      funext name start
      rw [Matching.call, Matching.call, ih]
      rcases definition_rel_cases (h name) with
        ⟨hnone, hother⟩ | ⟨definition, trimmed, hdefinition, hother, htrims⟩
      · rw [hnone, hother]
      · have hempty (production : Production)
            (hproduction : Succeeds (Production.matchAt [] (grammar.call []) production 0)) :
            NeverMisses (Production.matchAt tokens (Matching.call grammar.definition? tokens bound)
              production) :=
          never_misses_of_empty (fun _ _ hposition hcall =>
            Matching.call_never_misses hposition hcall tokens bound) hproduction
        have hsame := htrims.match_eq hempty fun production hproduction symbol hsymbol =>
          (hconsistent.unstacked hdefinition production hproduction symbol hsymbol).matches_trimmed
            hempty
        rw [hdefinition, hother]
        simp only [hsame]

/-- A trimmed grammar has no references that the whole one has not. -/
theorem Trims.refers (h : grammar.Trims other) {name reference : String}
    (hrefers : other.Refers name reference) : grammar.Refers name reference := by
  obtain ⟨found, hfound, hmem⟩ := hrefers
  rcases definition_rel_cases (h name) with
    ⟨-, hother⟩ | ⟨definition, trimmed, hdefinition, hother, htrims⟩
  · rw [hother] at hfound
    cases hfound
  · rw [hother] at hfound
    cases hfound
    exact refers_of_definition hdefinition (htrims.references_subset hmem)

/-- A name that is free of recursion stays so when the grammar is trimmed. -/
theorem Trims.free (h : grammar.Trims other) {name : String}
    (hfree : grammar.FreeOfRecursion name) : other.FreeOfRecursion name :=
  hfree.of_leads fun hrefers => .single (h.refers hrefers)

/-- Trimming a grammar changes no match of a name that is free of recursion. -/
theorem Trims.call_eq_of_free (h : grammar.Trims other) (hconsistent : grammar.Consistent)
    {name : String} (hfree : grammar.FreeOfRecursion name) (tokens : List String) (start : Int) :
    other.call tokens name start = grammar.call tokens name start := by
  obtain ⟨bound, hbound, hotherBound⟩ := exists_common_bound hfree (h.free hfree) tokens start
  rw [hbound, hotherBound, h.call_eq hconsistent]

/-- Trimming a grammar changes no verdict of a defined name that is free of recursion. -/
theorem Trims.verdict_eq (h : grammar.Trims other) (hconsistent : grammar.Consistent)
    (hknows : grammar.Knows grammar.acyclic) (hother : other.Knows other.acyclic) {name : String}
    (hdefined : grammar.defines name = true) (hfree : grammar.FreeOfRecursion name)
    (sentence : String) :
    (other.validate sentence name).1 = (grammar.validate sentence name).1 := by
  rw [verdict_of_free hknows hdefined hfree,
    verdict_of_free hother ((defines_eq_of_rel (h name)).trans hdefined) (h.free hfree)]
  simp only [h.call_eq_of_free hconsistent hfree]

/-! ## The empty input -/

/-- The symbols of a usable name's definition settle. -/
theorem Usable.symbols_settle (hconsistent : grammar.Consistent) {name : String}
    (h : grammar.Usable name) {definition : Definition}
    (hdefinition : grammar.definition? name = some definition) (tokens : List String) :
    ∀ production ∈ definition, ∀ symbol ∈ production,
      symbol.Settled grammar.definition? tokens (grammar.call tokens) :=
  fun production hproduction symbol hsymbol =>
    Symbol.settled (hconsistent.unstacked hdefinition production hproduction symbol hsymbol)
      fun _ hreference => call_settles hconsistent
        (h.refers (refers_of_definition hdefinition
          (Definition.mem_references hproduction hsymbol hreference)))

omit [UnicodeData] in
/-- What settles everywhere and is never missed if it matches without tokens, matches without tokens
exactly if it matches everywhere. -/
theorem succeeds_iff {match? : List String → Int → Traced (Option Int)}
    {yields : List String → Nat → Option Nat → Prop}
    (hsettles : ∀ (tokens : List String) (start : Nat), start ≤ tokens.length → ∃ outcome,
      Settles tokens start (yields tokens start) (match? tokens start) outcome)
    (hnever : Succeeds (match? [] 0) → ∀ tokens, NeverMisses (match? tokens)) :
    Succeeds (match? [] 0) ↔ ∀ (tokens : List String) (start : Int), 0 ≤ start →
      start ≤ tokens.length → Succeeds (match? tokens start) := by
  constructor
  · intro h tokens start hfront hend
    obtain ⟨position, rfl⟩ := Int.eq_ofNat_of_zero_le hfront
    obtain ⟨outcome, houtcome⟩ := hsettles tokens position (by omega)
    cases outcome with
    | none => exact absurd houtcome.ends (hnever h tokens position)
    | some finish => exact ⟨finish, houtcome.ends⟩
  · intro h
    exact h [] 0 (Int.le_refl 0) (Int.le_refl 0)

/-- The empty sentence is valid for a usable name exactly if the name matches without tokens. -/
theorem Usable.validates_empty_iff (hconsistent : grammar.Consistent)
    (hknows : grammar.Knows grammar.acyclic) {name : String} (h : grammar.Usable name) :
    (grammar.validate "" name).1.result = .ok true ↔ Succeeds (grammar.call [] name 0) := by
  have hwords : words "" = [] := by cbv
  rw [validate_eq_true_iff hknows (h.complete name .refl) h.free, hwords]
  have hsettled : (Symbol.reference name).Settled grammar.definition? [] (grammar.call []) :=
    call_settles hconsistent h
  obtain ⟨outcome, houtcome⟩ := hsettled 0 (Nat.zero_le _)
  have hends : (grammar.call [] name 0).result = .ok (outcome.map Nat.cast) := houtcome.ends
  rw [Succeeds, hends]
  cases outcome with
  | none => simp
  | some finish =>
      -- Without tokens there is no other finish than the start.
      have hfinish := (houtcome.within finish rfl).2
      simp at hfinish
      simp [hfinish]

/-- After every history, and for every name from which neither a recursive nor an undefined name can
be reached: the empty sentence is valid for the name exactly if the name matches from every start in
all tokens, and each production of its definition matches without tokens exactly if it matches from
every start in all tokens. What stands behind such a production is dead: with none of it, or with
anything else in its place, the match is the same and leaves the same trace. So if alternatives
behind such productions are left out, in whatever rules and groups, then what can be reached from
the name is matched as before, and every sentence is judged as before. -/
theorem empty_input_decides (sources otherSources : List (String × String))
    (operations otherOperations : List Operation) (name : String) :
    let grammar := run operations (ofSources sources)
    let other := run otherOperations (ofSources otherSources)
    grammar.Usable name →
    ((grammar.validate "" name).1.result = .ok true ↔
      ∀ (tokens : List String) (start : Int), 0 ≤ start → start ≤ tokens.length →
        Succeeds (grammar.call tokens name start)) ∧
    (∀ definition, grammar.definition? name = some definition → ∀ production ∈ definition,
      Succeeds (Production.matchAt [] (grammar.call []) production 0) ↔
        ∀ (tokens : List String) (start : Int), 0 ≤ start → start ≤ tokens.length →
          Succeeds (Production.matchAt tokens (grammar.call tokens) production start)) ∧
    (∀ (first later instead : Definition) (production : Production),
      Succeeds (Production.matchAt [] (grammar.call []) production 0) → ∀ tokens start,
        Definition.matchAt tokens (grammar.call tokens) (first ++ production :: instead) start =
          Definition.matchAt tokens (grammar.call tokens) (first ++ production :: later) start) ∧
    (grammar.Trims other →
      (∀ reached, grammar.Reaches name reached → ∀ tokens start,
        other.call tokens reached start = grammar.call tokens reached start) ∧
      ∀ sentence, (other.validate sentence name).1 = (grammar.validate sentence name).1) := by
  intro grammar other husable
  have hconsistent : grammar.Consistent := consistent_invariant.run sources operations
  have hknows : grammar.Knows grammar.acyclic := knows_invariant.run sources operations
  have hother : other.Knows other.acyclic := knows_invariant.run otherSources otherOperations
  have hproductions (production : Production)
      (h : Succeeds (Production.matchAt [] (grammar.call []) production 0)) (tokens : List String) :
      NeverMisses (Production.matchAt tokens (grammar.call tokens) production) :=
    never_misses_of_empty (fun _ _ hposition hcall => call_never_misses hposition hcall tokens) h
  refine ⟨?_, fun definition hdefinition production hproduction => ?_,
    fun first later instead production h tokens start => ?_, fun htrims => ⟨?_, ?_⟩⟩
  · rw [husable.validates_empty_iff hconsistent hknows]
    exact succeeds_iff (fun tokens start => call_settles hconsistent husable start)
      fun h tokens => call_never_misses (Int.le_refl 0) h tokens
  · exact succeeds_iff (fun tokens start => Production.match_settles
      (husable.symbols_settle hconsistent hdefinition tokens production hproduction))
      (hproductions production)
  · exact Definition.match_append_of_never_misses (hproductions production h tokens) first instead
      later start
  · intro reached hreaches tokens start
    have hfree : grammar.FreeOfRecursion reached := fun further hfurther =>
      husable.free further (hreaches.trans hfurther)
    exact htrims.call_eq_of_free hconsistent hfree tokens start
  · exact fun sentence => htrims.verdict_eq hconsistent hknows hother
      (husable.complete name .refl) husable.free sentence

end Grammar

end Bnf

namespace Bnf.Grammar

open Matching

/-- Any number of words, or else an alternative that is never tried. -/
def stoppable : Grammar :=
  ofSources [("start", "<word>* | \"stop\""), ("word", "\"a\"")]

/-- The same without the alternative. -/
def unstoppable : Grammar :=
  run [.insert "start" "<word>*"] stoppable

/-- Words are matched and judged alike with the rule that has been trimmed and the one that has
not. -/
theorem empty_input_decides_dead_stop :
    stoppable.Usable "start" ∧ stoppable.Trims unstoppable ∧
    (stoppable.validate "" "start").1.result = .ok true ∧
    stoppable.definition? "start" =
      some ([.repeated (.reference "word")] :: [[.terminal "stop"]]) ∧
    Succeeds (Production.matchAt [] (stoppable.call []) [.repeated (.reference "word")] 0) ∧
    Succeeds (stoppable.call ["a", "stop"] "start" 1) ∧
    Succeeds (Production.matchAt ["a", "stop"] (stoppable.call ["a", "stop"])
      [.repeated (.reference "word")] 1) ∧
    Definition.matchAt ["stop"] (stoppable.call ["stop"]) [[.repeated (.reference "word")]] 0 =
      Definition.matchAt ["stop"] (stoppable.call ["stop"])
        ([.repeated (.reference "word")] :: [[.terminal "stop"]]) 0 ∧
    unstoppable.call ["stop"] "start" 0 = stoppable.call ["stop"] "start" 0 ∧
    (unstoppable.validate "stop" "start").1 = (stoppable.validate "stop" "start").1 := by
  have hnone : (stoppable.cycleFrom "start").1 = none := by cbv
  have husable : stoppable.Usable "start" :=
    ⟨free_of_cycleFrom (knows_invariant.ofSources _) hnone,
      complete_of_closed ["start", "word"] (by cbv) (by simp)⟩
  have hdefinition : stoppable.definition? "start" =
      some ([.repeated (.reference "word")] :: [[.terminal "stop"]]) := by cbv
  have hempty : Succeeds
      (Production.matchAt [] (stoppable.call []) [.repeated (.reference "word")] 0) :=
    ⟨0, by cbv⟩
  have hvalid : (stoppable.validate "" "start").1.result = .ok true := by cbv
  have htrims : stoppable.Trims unstoppable := by
    intro name
    show Option.Rel _ _ ((stoppable.insert "start" "<word>*").2.definition? name)
    rw [definition_insert]
    split
    · rename_i hname
      rw [hname.1, hdefinition, show Definition.tree "<word>*".toList =
        [] ++ [Symbol.repeated (.reference "word")] :: [] by cbv]
      exact .some (Definition.trims_append hempty [] (List.nil_sublist _))
    · cases stoppable.definition? name with
      | none => exact .none
      | some definition => exact .some (Definition.trims_self definition)
  obtain ⟨hrule, hproduction, hdead, htrimmed⟩ := empty_input_decides
    [("start", "<word>* | \"stop\""), ("word", "\"a\"")]
    [("start", "<word>* | \"stop\""), ("word", "\"a\"")] [] [.insert "start" "<word>*"] "start"
    husable
  exact ⟨husable, htrims, hvalid, hdefinition, hempty,
    hrule.1 hvalid ["a", "stop"] 1 (by decide) (by decide),
    (hproduction _ hdefinition _ List.mem_cons_self).1 hempty ["a", "stop"] 1 (by decide)
      (by decide),
    hdead [] [[.terminal "stop"]] [] _ hempty ["stop"] 0,
    (htrimmed htrims).1 "start" .refl ["stop"] 0, (htrimmed htrims).2 "stop"⟩

end Bnf.Grammar
