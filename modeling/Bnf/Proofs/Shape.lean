import Bnf.Proofs.Calls
import Bnf.Proofs.Composition
import Bnf.UnicodeData.Version14
import Mathlib

/-!
# The shape of what is read

Not every definition comes from a text. One that does has a shape: its leaves hold none of their
closing marks, its groups are not empty and hold nested text only, and its modifiers do not stack.
`Symbol.Shaped` says this of one symbol, and `Definition.shaped_tree` of all symbols in a definition
that was read, however deep. What follows a symbol that is not balanced is part of this symbol, so
there is at most one, and it is the last.

The shape is what the matcher relies on. By itself a modified symbol matches nothing, like an
unknown one, but of the symbols of a rule that was read only unknown ones are ever met that way
(`Matching.call_meets_unknown`). `Definition.shape_of_read` is all of this together.
-/

namespace Bnf

open Nesting

section

variable [UnicodeData]

/-! ## Symbols at any depth -/

/-- A symbol is part of itself, of a group with a symbol that it is part of, and of a modified
symbol whose body it is part of. -/
inductive Symbol.PartOf (part : Symbol) : Symbol → Prop where
  | self : Symbol.PartOf part part
  | group {alternatives : Definition} {production : Production} {symbol : Symbol}
      (hproduction : production ∈ alternatives) (hsymbol : symbol ∈ production)
      (h : Symbol.PartOf part symbol) : Symbol.PartOf part (.group alternatives)
  | optional {body : Symbol} (h : Symbol.PartOf part body) : Symbol.PartOf part (.optional body)
  | repeated {body : Symbol} (h : Symbol.PartOf part body) : Symbol.PartOf part (.repeated body)

/-- A symbol occurs in a definition, whatever groups and modifiers are around it. -/
def Symbol.OccursIn (part : Symbol) (definition : Definition) : Prop :=
  ∃ production ∈ definition, ∃ symbol ∈ production, part.PartOf symbol

/-- What a symbol that was read looks like. A leaf does not hold its closing mark, and the pattern
of a set denotes one. A group has a production, and all its symbols are written with nested text.
What is modified has no modifier of its own. -/
def Symbol.Shaped : Symbol → Prop
  | .terminal literal => '"' ∉ literal.toList
  | .reference name => '>' ∉ name.toList
  | .charClass pattern => (CharSet.read? pattern.toList).isSome ∧
      ∃ body, pattern.toList = Text.delimit '[' ']' body ∧ ']' ∉ body
  | .unknown _ => True
  | .group alternatives => alternatives ≠ [] ∧
      ∀ production ∈ alternatives, ∀ symbol ∈ production, Nested symbol.code
  | .optional body => body.IsBase
  | .repeated body => body.IsBase

/-- All symbols in a definition, however deep, are shaped. -/
def Definition.Shaped (definition : Definition) : Prop :=
  ∀ symbol : Symbol, symbol.OccursIn definition → symbol.Shaped

omit [UnicodeData] in
/-- What is part of a symbol of a group occurs in the group. -/
theorem Symbol.PartOf.group_cases {part : Symbol} {alternatives : Definition}
    (h : part.PartOf (.group alternatives)) :
    part = .group alternatives ∨ part.OccursIn alternatives := by
  cases h with
  | self => exact .inl rfl
  | group hproduction hsymbol hpart => exact .inr ⟨_, hproduction, _, hsymbol, hpart⟩

omit [UnicodeData] in
/-- Parts of a part are parts of the whole. -/
theorem Symbol.PartOf.trans {part middle whole : Symbol} (h : part.PartOf middle)
    (hmiddle : middle.PartOf whole) : part.PartOf whole := by
  induction hmiddle with
  | self => exact h
  | group hproduction hsymbol _ ih => exact .group hproduction hsymbol ih
  | optional _ ih => exact .optional ih
  | repeated _ ih => exact .repeated ih

/-! ## Reading -/

/-- What denotes a set is delimited by brackets. -/
theorem CharSet.delimited_of_read {text : List Char} (h : (CharSet.read? text).isSome) :
    ∃ body, text = Text.delimit '[' ']' body ∧ ']' ∉ body := by
  unfold CharSet.read? CharSet.read at h
  cases hbody : Text.delimited? '[' ']' text with
  | none =>
      rw [hbody] at h
      cases h
  | some body => exact ⟨body, Text.delimited?_eq_some_iff.1 hbody⟩

/-- The symbol of a nested token is written with nested text. -/
theorem Symbol.nested_code_tree {token : List Char} (h : Nested token) :
    Nested (Symbol.tree token).code := by
  rcases Symbol.code_tree_cases token with hsame | ⟨inside, mark, modify, hmark, hinside, rfl⟩
  · rwa [hsame]
  · rw [hmark.tree_group hinside, hmark.code_group]
    exact (Definition.nested_code_tree hinside).between_blanks.enclose.append hmark.nested

/-- All symbols of a nested text are written with nested text. -/
theorem Definition.nested_symbols {text : List Char} (h : Nested text) :
    ∀ production ∈ Definition.tree text, ∀ symbol ∈ production, Nested symbol.code := by
  rw [Definition.tree_eq_map]
  intro production hproduction symbol hsymbol
  obtain ⟨alternative, halternative, rfl⟩ := List.mem_map.1 hproduction
  obtain ⟨token, htoken, rfl⟩ := List.mem_map.1 hsymbol
  exact Symbol.nested_code_tree
    (nested_of_mem_tokens (nested_of_mem_alternatives h halternative) htoken)

/-- There is a production in every definition that was read. -/
theorem Definition.tree_ne_nil (text : List Char) : Definition.tree text ≠ [] := by
  rw [Definition.tree_eq_map, Ne, List.map_eq_nil_iff]
  exact alternatives_ne_nil text

/-! ## Shapes -/

/-- All parts of a symbol without a modifier are shaped, if those of shorter definitions are. -/
theorem Symbol.shaped_tree_base {token : List Char}
    (h : ∀ inside : List Char, inside.length < token.length →
      (Definition.tree inside).Shaped) {part : Symbol}
    (hpart : part.PartOf (Symbol.treeBase token)) : part.Shaped := by
  have hreading := Symbol.base_tree_cases token
  generalize Symbol.treeBase token = symbol at hreading hpart
  cases hreading with
  | terminal hquote =>
      cases hpart
      simpa [Symbol.Shaped] using hquote
  | reference hangle =>
      cases hpart
      simpa [Symbol.Shaped] using hangle
  | @group inside hinside =>
      rcases hpart.group_cases with rfl | hoccurs
      · exact ⟨Definition.tree_ne_nil inside, Definition.nested_symbols hinside⟩
      · have hinterior := interior_eq_some_iff.2 ⟨rfl, hinside⟩
        exact h inside (length_lt_of_interior? hinterior) part hoccurs
  | charClass hset =>
      cases hpart
      rw [Symbol.Shaped, String.toList_ofList]
      exact ⟨hset, CharSet.delimited_of_read hset⟩
  | unknown =>
      cases hpart
      trivial

/-- What is left of a token without its modifier is read as a symbol without a modifier. -/
theorem Symbol.isBase_tree_base (token : List Char) : (Symbol.treeBase token).IsBase :=
  (Symbol.unstacked_tree_base fun inside _ => Definition.unstacked_tree inside).1

/-- All parts of a symbol that was read are shaped, if those of shorter definitions are. -/
theorem Symbol.shaped_tree {token : List Char}
    (h : ∀ inside : List Char, inside.length < token.length →
      (Definition.tree inside).Shaped) {part : Symbol}
    (hpart : part.PartOf (Symbol.tree token)) : part.Shaped := by
  have hshorter : ∀ inside : List Char, inside.length < token.dropLast.length →
      (Definition.tree inside).Shaped := by
    intro inside hinside
    rw [List.length_dropLast] at hinside
    exact h inside (by omega)
  rw [Symbol.tree_eq] at hpart
  split at hpart
  · cases hpart with
    | self => exact Symbol.isBase_tree_base _
    | repeated hbody => exact Symbol.shaped_tree_base hshorter hbody
  · cases hpart with
    | self => exact Symbol.isBase_tree_base _
    | optional hbody => exact Symbol.shaped_tree_base hshorter hbody
  · exact Symbol.shaped_tree_base h hpart

/-- All symbols in a definition that was read are shaped, however deep. -/
theorem Definition.shaped_tree (text : List Char) : (Definition.tree text).Shaped := by
  intro part hpart
  rw [Definition.tree_eq_map] at hpart
  obtain ⟨production, hproduction, symbol, hsymbol, hpart⟩ := hpart
  obtain ⟨alternative, halternative, rfl⟩ := List.mem_map.1 hproduction
  obtain ⟨token, htoken, rfl⟩ := List.mem_map.1 hsymbol
  -- The inside of a group is shorter than its token, which is no longer than the text.
  refine Symbol.shaped_tree (fun inside hinside => ?_) hpart
  have hlength := length_le_of_mem_tokens htoken
  have hmore := length_le_of_mem_alternatives halternative
  exact Definition.shaped_tree inside
termination_by text.length

omit [UnicodeData] in
/-- A text is nested if it is with a mark behind it that has no parentheses. -/
theorem Nesting.Nested.of_append {text mark : List Char} (h : Nested (text ++ mark))
    (hmark : Nested mark) : Nested text := by
  refine ⟨fun before hbefore => h.prefix_nonneg before (hbefore.trans (List.prefix_append _ _)), ?_⟩
  have hbalance := h.balanced
  rw [balance_append, hmark.balanced] at hbalance
  omega

/-- All parts of a shaped symbol that is written with nested text are written so. -/
theorem Symbol.PartOf.nested {part whole : Symbol} (h : part.PartOf whole)
    (hshaped : ∀ inner : Symbol, inner.PartOf whole → inner.Shaped) (hwhole : Nested whole.code) :
    Nested part.code := by
  induction h with
  | self => exact hwhole
  | group hproduction hsymbol _ ih =>
      have hgroup := hshaped _ .self
      exact ih (fun inner hinner => hshaped inner (.group hproduction hsymbol hinner))
        (hgroup.2 _ hproduction _ hsymbol)
  | optional _ ih =>
      exact ih (fun inner hinner => hshaped inner (.optional hinner))
        (hwhole.of_append Modifier.question.nested)
  | repeated _ ih =>
      exact ih (fun inner hinner => hshaped inner (.repeated hinner))
        (hwhole.of_append Modifier.star.nested)

/-- What occurs in a group of a shaped definition is written with nested text. -/
theorem Definition.Shaped.nested {definition alternatives : Definition}
    (h : definition.Shaped) (hgroup : (Symbol.group alternatives).OccursIn definition)
    {symbol : Symbol} (hsymbol : symbol.OccursIn alternatives) : Nested symbol.code := by
  obtain ⟨production, hproduction, whole, hwhole, hpart⟩ := hsymbol
  obtain ⟨outer, houter, root, hroot, hinside⟩ := hgroup
  have hshaped : ∀ inner : Symbol, inner.PartOf root → inner.Shaped :=
    fun inner hinner => h inner ⟨outer, houter, root, hroot, hinner⟩
  refine hpart.nested (fun inner hinner => ?_) ((hshaped _ hinside).2 production hproduction whole
    hwhole)
  exact hshaped inner ((Symbol.PartOf.group hproduction hwhole hinner).trans hinside)

/-! ## Balanced symbols -/

omit [UnicodeData] in
/-- The tokens of a balanced text are balanced, the last one too. -/
theorem Nesting.balance_of_mem_tokens {text token : List Char} (htext : balance text = 0)
    (h : token ∈ tokens text) : balance token = 0 := by
  obtain ⟨before, after, rfl, hbefore, -, hafter⟩ :=
    place_of_mem_cut flat_blank (List.mem_filter.1 h).1
  rcases hafter with rfl | hbalance
  · rw [balance_append, hbefore, List.append_nil] at htext
    omega
  · exact hbalance

/-- The symbols of all productions but the last are balanced. -/
theorem Definition.balance_of_mem_dropLast {text : List Char} :
    ∀ production ∈ (Definition.tree text).dropLast, ∀ symbol ∈ production,
      balance symbol.code = 0 := by
  rw [Definition.tree_eq_map, ← List.map_dropLast]
  intro production hproduction symbol hsymbol
  obtain ⟨alternative, halternative, rfl⟩ := List.mem_map.1 hproduction
  obtain ⟨token, htoken, rfl⟩ := List.mem_map.1 hsymbol
  rw [Symbol.balance_code_tree]
  exact balance_of_mem_tokens (balance_of_mem_dropLast_alternatives halternative) htoken

/-- All symbols of a production but the last are balanced. -/
theorem Production.balance_of_mem_dropLast {text : List Char} :
    ∀ production ∈ Definition.tree text, ∀ symbol ∈ production.dropLast,
      balance symbol.code = 0 := by
  rw [Definition.tree_eq_map]
  intro production hproduction symbol hsymbol
  obtain ⟨alternative, halternative, rfl⟩ := List.mem_map.1 hproduction
  rw [Production.tree, ← List.map_dropLast] at hsymbol
  obtain ⟨token, htoken, rfl⟩ := List.mem_map.1 hsymbol
  rw [Symbol.balance_code_tree]
  exact balance_of_mem_dropLast_tokens htoken

/-! ## What a match meets -/

/-- Of the symbols that match nothing by themselves, a computation meets unknown ones only. -/
def Traced.MeetsUnknown {α : Type} (run : Traced α) : Prop :=
  ∀ event ∈ run.events, ∀ symbol, event.note = .unmatchable symbol → ∃ code, symbol = .unknown code

namespace Traced

variable {α β : Type}

omit [UnicodeData] in
theorem MeetsUnknown.bind {first : Traced α} {next : α → Traced β} (hfirst : first.MeetsUnknown)
    (hnext : ∀ value, first.result = .ok value → (next value).MeetsUnknown) :
    (first >>= next).MeetsUnknown := by
  unfold MeetsUnknown
  cases hresult : first.result with
  | error fault =>
      rw [events_bind_of_error hresult]
      exact hfirst
  | ok value =>
      rw [events_bind_of_ok hresult]
      exact List.forall_mem_append.2 ⟨hfirst, hnext value hresult⟩

omit [UnicodeData] in
/-- What is met does not depend on the depth. -/
theorem MeetsUnknown.nested {run : Traced α} (h : run.MeetsUnknown) :
    (Traced.nested run).MeetsUnknown := by
  intro event hevent symbol hsymbol
  obtain ⟨inner, hinner, rfl⟩ := List.mem_map.1 hevent
  exact h inner hinner symbol hsymbol

omit [UnicodeData] in
/-- A note about anything else meets nothing. -/
theorem meets_unknown_record {note : Trace.Note}
    (h : ∀ symbol, note = .unmatchable symbol → ∃ code, symbol = .unknown code) :
    (Traced.record note).MeetsUnknown :=
  List.forall_mem_singleton.2 h

omit [UnicodeData] in
theorem meets_unknown_chained : Matching.Chained MeetsUnknown where
  pure _ := List.forall_mem_nil _
  bind hfirst hnext := hfirst.bind hnext

omit [UnicodeData] in
/-- A demanded token is no symbol that matches nothing by itself. -/
theorem meets_unknown_token (tokens : List String) (symbol : Symbol) (accepts : String → Bool)
    (start : Int) : (Matching.oneToken tokens symbol accepts start).MeetsUnknown :=
  Matching.one_token_chained meets_unknown_chained (List.forall_mem_nil _)
    (fun _ _ => meets_unknown_record (by simp)) (fun _ _ => meets_unknown_record (by simp))
    tokens symbol accepts start

end Traced

variable {tokens : List String} {call : String → Int → Traced (Option Int)}

/-- If modifiers do not stack, a symbol with its modifier meets what its calls do, and so does a
symbol that has none. -/
theorem Symbol.Unstacked.meets_unknown
    (hcall : ∀ name position, (call name position).MeetsUnknown) {symbol : Symbol}
    (h : symbol.Unstacked) (start : Int) :
    (symbol.IsBase → (Symbol.matchAt tokens call symbol start).MeetsUnknown) ∧
      (Symbol.matchModified tokens call symbol start).MeetsUnknown := by
  induction h generalizing start with
  | terminal literal =>
      exact ⟨fun _ => Traced.meets_unknown_token _ _ _ _, Traced.meets_unknown_token _ _ _ _⟩
  | charClass pattern =>
      exact ⟨fun _ => Traced.meets_unknown_token _ _ _ _, Traced.meets_unknown_token _ _ _ _⟩
  | reference name => exact ⟨fun _ => hcall name start, hcall name start⟩
  | unknown code =>
      have hunknown : (do
          Traced.record (.unmatchable (.unknown code))
          return none : Traced (Option Int)).MeetsUnknown :=
        (Traced.meets_unknown_record fun symbol hsymbol => ⟨code, by cases hsymbol; rfl⟩).bind
          fun _ _ => Traced.meets_unknown_chained.pure none
      exact ⟨fun _ => hunknown, hunknown⟩
  | @group alternatives _ ih =>
      have hgroup : (Definition.matchAt tokens call alternatives start).MeetsUnknown :=
        Definition.match_chained Traced.meets_unknown_chained
          (fun production hproduction symbol hsymbol position =>
            (ih production hproduction symbol hsymbol position).2) start
      exact ⟨fun _ => hgroup, hgroup⟩
  | optional hbase _ ih =>
      refine ⟨False.elim, ?_⟩
      rw [Symbol.matchModified, ← bind_pure_comp]
      exact ((ih start).1 hbase).bind fun _ _ => Traced.meets_unknown_chained.pure _
  | repeated hbase _ ih =>
      refine ⟨False.elim, ?_⟩
      rw [Symbol.matchModified, ← bind_pure_comp]
      exact (Matching.advance_chained Traced.meets_unknown_chained
        (fun position => (ih position).1 hbase) _ start).bind
          fun _ _ => Traced.meets_unknown_chained.pure _

/-- A call of a rule meets unknown symbols only, if no modifiers stack in any rule. -/
theorem Matching.call_meets_unknown {rules : String → Option Definition}
    (hrules : ∀ name definition, rules name = some definition → definition.Unstacked)
    (bound : Nat) (name : String) (start : Int) :
    (Matching.call rules tokens bound name start).MeetsUnknown := by
  induction bound generalizing name start with
  | zero =>
      rw [Matching.call]
      split <;> exact List.forall_mem_nil _
  | succ bound ih =>
      rw [Matching.call]
      split
      · exact List.forall_mem_nil _
      · rename_i definition hdefinition
        have hmatch : (Definition.matchAt tokens (Matching.call rules tokens bound) definition
            start).MeetsUnknown :=
          Definition.match_chained Traced.meets_unknown_chained
            (fun production hproduction symbol hsymbol position =>
              ((hrules name definition hdefinition production hproduction symbol hsymbol
                ).meets_unknown ih position).2) start
        have hentered : (Traced.record (.entered name start)).MeetsUnknown :=
          Traced.meets_unknown_record (by simp)
        have hleft (finish : Option Int) : (Traced.record (.left name finish)).MeetsUnknown :=
          Traced.meets_unknown_record (by simp)
        exact hentered.bind fun _ _ => hmatch.nested.bind fun finish _ =>
          (hleft finish).bind fun _ _ => Traced.meets_unknown_chained.pure finish

/-- A definition that was read has a production. All symbols in it, however deep, are shaped, and
those in its groups are written with nested text. Only the last symbol of the last production may
open more or less parentheses than it closes. Hence whatever rules a grammar was given, however it
was changed and however deep its rules are nested, where a match of a rule meets a symbol that
matches nothing by itself, the symbol is unknown and never a modified one. -/
theorem Definition.shape_of_read :
    (∀ text definition, Definition.read text = .ok definition →
      definition ≠ [] ∧ definition.Shaped ∧
      (∀ alternatives, (Symbol.group alternatives).OccursIn definition →
        ∀ symbol : Symbol, symbol.OccursIn alternatives → Nested symbol.code) ∧
      (∀ production ∈ definition.dropLast, ∀ symbol ∈ production,
        symbol.code.count '(' = symbol.code.count ')') ∧
      ∀ production ∈ definition, ∀ symbol ∈ production.dropLast,
        symbol.code.count '(' = symbol.code.count ')') ∧
    ∀ sources operations tokens bound name start,
      let grammar := Grammar.run operations (Grammar.ofSources sources)
      ∀ event ∈ (Matching.call grammar.definition? tokens bound name start).events, ∀ symbol,
        event.note = .unmatchable symbol → ∃ code, symbol = .unknown code := by
  constructor
  · intro text definition hread
    rw [Definition.read_eq_checked, checked_eq_ok_iff] at hread
    obtain ⟨-, rfl⟩ := hread
    have hshaped := Definition.shaped_tree text
    refine ⟨Definition.tree_ne_nil text, hshaped,
      fun alternatives hgroup symbol hsymbol => hshaped.nested hgroup hsymbol, ?_, ?_⟩
    · intro production hproduction symbol hsymbol
      exact balance_eq_zero_iff.1
        (Definition.balance_of_mem_dropLast production hproduction symbol hsymbol)
    · intro production hproduction symbol hsymbol
      exact balance_eq_zero_iff.1
        (Production.balance_of_mem_dropLast production hproduction symbol hsymbol)
  · intro sources operations tokens bound name start grammar
    have hconsistent : grammar.Consistent := Grammar.consistent_invariant.run sources operations
    exact Matching.call_meets_unknown (fun _ _ hdefinition => hconsistent.unstacked hdefinition)
      bound name start

end

/-- A repeated symbol in an optional group, a last symbol that is not balanced, and a match that
meets an optional unknown symbol. -/
theorem Definition.shape_of_read_unbalanced :
    let inside : Definition := [[.repeated (.terminal "x"), .charClass "[0-9]"]]
    let definition : Definition :=
      [[.optional (.group inside)], [.reference "b", .unknown "(c"]]
    let run :=
      Matching.call (Grammar.ofSources [("start", "x? \"a\"")]).definition? ["a"] 1 "start" 0
    Definition.read "( \"x\"* [0-9] )? | <b> (c".toList = .ok definition ∧
      (Symbol.group inside).OccursIn definition ∧ (Symbol.group inside).Shaped ∧
      (Symbol.terminal "x").OccursIn inside ∧ Nested (Symbol.terminal "x").code ∧
      (Symbol.reference "b").code.count '(' = (Symbol.reference "b").code.count ')' ∧
    ∃ event ∈ run.events, ∃ symbol, event.note = .unmatchable symbol ∧
      ∃ code, symbol = .unknown code := by
  have hread : Definition.read "( \"x\"* [0-9] )? | <b> (c".toList =
      .ok [[.optional (.group [[.repeated (.terminal "x"), .charClass "[0-9]"]])],
        [.reference "b", .unknown "(c"]] := by cbv
  have hevents : (Matching.call (Grammar.ofSources [("start", "x? \"a\"")]).definition? ["a"] 1
      "start" 0).events = [⟨0, .entered "start" 0⟩, ⟨1, .unmatchable (.unknown "x")⟩,
        ⟨1, .matched "a" (.terminal "a")⟩, ⟨0, .left "start" (some 1)⟩] := by cbv
  intro inside definition run
  obtain ⟨hshape, hmatch⟩ := Definition.shape_of_read
  obtain ⟨-, hshaped, hnested, -, hbalanced⟩ := hshape _ definition hread
  have hgroup : (Symbol.group inside).OccursIn definition :=
    ⟨_, List.mem_cons_self, _, List.mem_cons_self, .optional .self⟩
  have hterminal : (Symbol.terminal "x").OccursIn inside :=
    ⟨_, List.mem_cons_self, _, List.mem_cons_self, .repeated .self⟩
  have hreference : [.reference "b", .unknown "(c"] ∈ definition :=
    List.mem_cons_of_mem _ List.mem_cons_self
  have hevent : (⟨1, .unmatchable (.unknown "x")⟩ : Trace.Event) ∈ run.events := by
    rw [show run.events = _ from hevents]
    exact List.mem_cons_of_mem _ List.mem_cons_self
  exact ⟨hread, hgroup, hshaped _ hgroup, hterminal, hnested inside hgroup _ hterminal,
    hbalanced _ hreference _ List.mem_cons_self,
    _, hevent, _, rfl, hmatch [("start", "x? \"a\"")] [] ["a"] 1 "start" 0 _ hevent _ rfl⟩

end Bnf
