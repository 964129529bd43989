import Bnf.Definition.References
import Bnf.Proofs.Matching

/-!
# Matching and the rules it calls

The matcher is given how to call a rule. What it makes of this does not depend on how deep rules are
nested, so each fact here is carried from the calls to what is matched with them: a match runs
forward if the calls do, two ways of calling that agree on what is called match alike
(`Definition.match_congr`), and a property of computations that is kept when computations follow
each other holds of a match if it holds of the calls (`Definition.match_kept`). The same is true of
a relation between computations and two ways of calling (`Definition.match_related`). Only names
that a definition refers to are ever called.
-/

namespace Bnf

variable {tokens : List String} {call other : String → Int → Traced (Option Int)}

/-! ## Matches run forward -/

/-- A match does not end before its start. -/
def Matching.Forward (match? : Int → Traced (Option Int)) : Prop :=
  ∀ start finish : Int, (match? start).result = .ok (some finish) → start ≤ finish

/-- A demanded token ends one position further on. -/
theorem Matching.one_token_forward (symbol : Symbol) (accepts : String → Bool) :
    Matching.Forward (Matching.oneToken tokens symbol accepts) := by
  intro start finish h
  obtain ⟨-, rfl, -⟩ := Matching.one_token_eq_some h
  omega

/-- A repetition does not end before its start. -/
theorem Matching.le_of_advance {step : Int → Traced (Option Int)} {size : Nat} {start finish : Int}
    (h : (Matching.advance step size start).result = .ok finish) : start ≤ finish := by
  refine Matching.advance_induction (motive := fun start finish => start ≤ finish)
    Int.le_refl ?_ h
  intro first next last _ hnext _ hrest
  omega

variable [UnicodeData]

/-- A production of forward symbols runs forward. -/
theorem Production.match_forward {production : Production}
    (hsymbols : ∀ symbol ∈ production, Matching.Forward (Symbol.matchModified tokens call symbol)) :
    Matching.Forward (Production.matchAt tokens call production) := by
  intro start finish h
  induction production generalizing start with
  | nil =>
      cases h
      exact Int.le_refl _
  | cons symbol rest ih =>
      obtain ⟨middle, hfirst, hrest⟩ := Production.match_cons_eq_some h
      have hstart := hsymbols symbol List.mem_cons_self start middle hfirst
      have hmiddle := ih (fun s hs => hsymbols s (List.mem_cons_of_mem symbol hs)) middle hrest
      omega

/-- If calls of rules run forward, every symbol does, with its modifier and without. -/
theorem Symbol.match_forward (hcall : ∀ name, Matching.Forward (call name)) (symbol : Symbol) :
    Matching.Forward (Symbol.matchAt tokens call symbol) ∧
      Matching.Forward (Symbol.matchModified tokens call symbol) := by
  induction symbol using Symbol.induction with
  | terminal literal => exact ⟨Matching.one_token_forward _ _, Matching.one_token_forward _ _⟩
  | charClass pattern => exact ⟨Matching.one_token_forward _ _, Matching.one_token_forward _ _⟩
  | reference name => exact ⟨hcall name, hcall name⟩
  | unknown code => exact ⟨(fun _ _ h => by cases h), (fun _ _ h => by cases h)⟩
  | group alternatives ih =>
      have hgroup : Matching.Forward (Symbol.matchAt tokens call (.group alternatives)) := by
        intro start finish h
        obtain ⟨production, hmem, hmatch⟩ := Definition.match_eq_some h
        exact Production.match_forward (fun symbol hsymbol => (ih production hmem symbol hsymbol).2)
          start finish hmatch
      exact ⟨hgroup, hgroup⟩
  | optional body ih =>
      refine ⟨(fun _ _ h => by cases h), fun start finish h => ?_⟩
      obtain ⟨next, hbody, hfinish⟩ := Symbol.match_optional_eq_ok h
      cases next with
      | none =>
          cases hfinish
          exact Int.le_refl _
      | some position =>
          cases hfinish
          exact ih.1 start position hbody
  | repeated body ih =>
      refine ⟨(fun _ _ h => by cases h), fun start finish h => ?_⟩
      obtain ⟨position, hfinish, hrun⟩ := Symbol.match_repeated_eq_ok h
      cases hfinish
      exact Matching.le_of_advance hrun

/-- Calls of rules run forward, however deep they may be nested. -/
theorem Matching.call_forward (rules : String → Option Definition) (bound : Nat) (name : String) :
    Matching.Forward (Matching.call rules tokens bound name) := by
  induction bound generalizing name with
  | zero =>
      intro start finish h
      obtain ⟨_, _, _, hbound, _⟩ := Matching.call_eq_some h
      cases hbound
  | succ bound ih =>
      intro start finish h
      obtain ⟨definition, less, _, hbound, hmatch⟩ := Matching.call_eq_some h
      cases hbound
      obtain ⟨production, _, hmatch⟩ := Definition.match_eq_some hmatch
      exact Production.match_forward (fun symbol _ => (Symbol.match_forward ih symbol).2)
        start finish hmatch

/-! ## Only references are called -/

omit [UnicodeData] in
/-- Two computations in a row may be continued differently where the first one does not end. -/
theorem Traced.bind_congr {α β : Type} {first : Traced α} {next further : α → Traced β}
    (h : ∀ value, first.result = .ok value → next value = further value) :
    first >>= next = first >>= further := by
  obtain ⟨events, _ | value⟩ := first
  · rfl
  · change Traced.bind _ _ = Traced.bind _ _
    rw [Traced.bind, Traced.bind]
    simp only [h value rfl]

omit [UnicodeData] in
/-- Two steps that agree from the start on take the same laps. -/
theorem Matching.advance_congr {step further : Int → Traced (Option Int)} {size : Nat} {start : Int}
    (h : ∀ position, start ≤ position → step position = further position) :
    Matching.advance step size start = Matching.advance further size start := by
  rw [Matching.advance, Matching.advance, h start (Int.le_refl start)]
  split
  · refine Traced.bind_congr fun next _ => ?_
    cases next with
    | none => rfl
    | some position =>
        by_cases hnext : start < position
        · simp only [hnext, dite_true]
          exact Matching.advance_congr fun later hlater => h later (by omega)
        · simp only [hnext, dite_false]
  · rfl
termination_by (size - start).toNat

/-- Two ways of calling rules agree on names at all positions from a start on. -/
def Matching.AgreeOn (call other : String → Int → Traced (Option Int)) (names : List String)
    (start : Int) : Prop :=
  ∀ name ∈ names, ∀ position : Int, start ≤ position → call name position = other name position

omit [UnicodeData] in
/-- What agrees on names agrees on fewer names and further on. -/
theorem Matching.AgreeOn.mono {names fewer : List String} {start later : Int}
    (h : Matching.AgreeOn call other names start) (hnames : fewer ⊆ names)
    (hlater : start ≤ later) :
    Matching.AgreeOn call other fewer later :=
  fun name hname position hposition =>
    h name (hnames hname) position (Int.le_trans hlater hposition)

/-- Two ways of calling rules match a symbol alike, with its modifier and without, if they agree on
what the symbol refers to. -/
def Symbol.MatchesAlike (tokens : List String) (call other : String → Int → Traced (Option Int))
    (symbol : Symbol) : Prop :=
  ∀ start : Int, Matching.AgreeOn call other symbol.references start →
    Symbol.matchAt tokens call symbol start = Symbol.matchAt tokens other symbol start ∧
      Symbol.matchModified tokens call symbol start = Symbol.matchModified tokens other symbol start

/-- A production is matched alike if its symbols are. -/
theorem Production.match_congr (hforward : ∀ name, Matching.Forward (call name))
    {production : Production}
    (hsymbols : ∀ symbol ∈ production, symbol.MatchesAlike tokens call other) {start : Int}
    (h : Matching.AgreeOn call other (Production.references production) start) :
    Production.matchAt tokens call production start =
      Production.matchAt tokens other production start := by
  induction production generalizing start with
  | nil => rfl
  | cons symbol rest ih =>
      rw [Production.references] at h
      have hfirst := h.mono (List.subset_append_left _ _) (Int.le_refl start)
      rw [Production.matchAt_cons, Production.matchAt_cons,
        ← (hsymbols symbol List.mem_cons_self start hfirst).2]
      -- The rest is matched from where the symbol ends, which is not before `start`.
      refine Traced.bind_congr fun next hnext => ?_
      cases next with
      | none => rfl
      | some middle =>
          have hmiddle := (Symbol.match_forward hforward symbol).2 start middle hnext
          exact ih (fun s hs => hsymbols s (List.mem_cons_of_mem symbol hs))
            (h.mono (List.subset_append_right _ _) hmiddle)

/-- A definition is matched alike if its symbols are. -/
theorem Definition.match_alike (hforward : ∀ name, Matching.Forward (call name))
    {definition : Definition}
    (hsymbols : ∀ production ∈ definition, ∀ symbol ∈ production,
      symbol.MatchesAlike tokens call other) {start : Int}
    (h : Matching.AgreeOn call other (Definition.references definition) start) :
    Definition.matchAt tokens call definition start =
      Definition.matchAt tokens other definition start := by
  induction definition with
  | nil => rfl
  | cons production rest ih =>
      rw [Definition.references] at h
      rw [Definition.matchAt, Definition.matchAt,
        ← Production.match_congr hforward (hsymbols production List.mem_cons_self)
          (h.mono (List.subset_append_left _ _) (Int.le_refl start))]
      refine Traced.bind_congr fun finish _ => ?_
      cases finish with
      | none =>
          exact ih (fun later hlater => hsymbols later (List.mem_cons_of_mem production hlater))
            (h.mono (List.subset_append_right _ _) (Int.le_refl start))
      | some position => rfl

/-- Every symbol is matched alike by two ways of calling rules that agree on its references. -/
theorem Symbol.matches_alike (hforward : ∀ name, Matching.Forward (call name)) (symbol : Symbol) :
    symbol.MatchesAlike tokens call other := by
  induction symbol using Symbol.induction with
  | terminal literal => exact fun _ _ => ⟨rfl, rfl⟩
  | charClass pattern => exact fun _ _ => ⟨rfl, rfl⟩
  | unknown code => exact fun _ _ => ⟨rfl, rfl⟩
  | reference name =>
      intro start h
      have hcall := h name (List.mem_singleton_self name) start (Int.le_refl start)
      exact ⟨hcall, hcall⟩
  | group alternatives ih =>
      intro start h
      have hgroup := Definition.match_alike hforward ih h
      exact ⟨hgroup, hgroup⟩
  | optional body ih =>
      intro start h
      refine ⟨rfl, ?_⟩
      rw [Symbol.matchModified, Symbol.matchModified, (ih start h).1]
  | repeated body ih =>
      intro start h
      refine ⟨rfl, ?_⟩
      rw [Symbol.matchModified, Symbol.matchModified, Matching.advance_congr fun position hle =>
        (ih position (h.mono (List.Subset.refl _) hle)).1]

/-- A definition is matched alike by two ways of calling rules that agree on its references, from
the start on. So no other rule is called, and none before the start. -/
theorem Definition.match_congr (hforward : ∀ name, Matching.Forward (call name))
    {definition : Definition} {start : Int}
    (h : Matching.AgreeOn call other (Definition.references definition) start) :
    Definition.matchAt tokens call definition start =
      Definition.matchAt tokens other definition start :=
  Definition.match_alike hforward (fun _ _ symbol _ => Symbol.matches_alike hforward symbol) h

/-! ## What matching keeps -/

/-- A property of computations that is kept when computations follow each other. -/
structure Matching.Chained (holds : {α : Type} → Traced α → Prop) : Prop where
  pure {α : Type} (value : α) : holds (Pure.pure value : Traced α)
  bind {α β : Type} {first : Traced α} {next : α → Traced β} (hfirst : holds first)
    (hnext : ∀ value, first.result = .ok value → holds (next value)) : holds (first >>= next)

/-- A property of computations that is kept when computations follow each other, and that a demanded
token and a symbol that can match nothing have. -/
structure Matching.Kept (tokens : List String) (holds : {α : Type} → Traced α → Prop) : Prop
    extends Matching.Chained holds where
  token (symbol : Symbol) (accepts : String → Bool) (start : Int) :
    holds (Matching.oneToken tokens symbol accepts start)
  unmatchable (symbol : Symbol) : holds (Traced.record (.unmatchable symbol))

section Kept

variable {holds : {α : Type} → Traced α → Prop}

omit [UnicodeData] in
/-- A property that is kept along a chain is one of a demanded token if what is noted of the token
has it, and the fault of a position before all tokens. -/
theorem Matching.one_token_chained (hchained : Matching.Chained holds)
    (hfail : holds (Traced.fail .beforeFirstToken : Traced (Option Int)))
    (hmatched : ∀ token symbol, holds (Traced.record (.matched token symbol)))
    (hunmatched : ∀ token symbol, holds (Traced.record (.unmatched token symbol)))
    (tokens : List String) (symbol : Symbol) (accepts : String → Bool) (start : Int) :
    holds (Matching.oneToken tokens symbol accepts start) := by
  unfold Matching.oneToken
  split
  · split
    · exact hfail
    · split
      · exact hchained.bind (hmatched _ _) fun _ _ => hchained.pure _
      · exact hchained.bind (hunmatched _ _) fun _ _ => hchained.pure none
  · exact hchained.bind (hunmatched none _) fun _ _ => hchained.pure none

omit [UnicodeData] in
/-- A property of the steps of a repetition that is kept along a chain is one of the repetition. -/
theorem Matching.advance_chained (hchained : Matching.Chained holds)
    {step : Int → Traced (Option Int)} (h : ∀ position, holds (step position)) (size : Nat)
    (start : Int) : holds (Matching.advance step size start) := by
  rw [Matching.advance]
  split
  · refine hchained.bind (h start) fun next _ => ?_
    cases next with
    | none => exact hchained.pure start
    | some position =>
        by_cases hnext : start < position
        · simp only [hnext, dite_true]
          exact Matching.advance_chained hchained h size position
        · simp only [hnext, dite_false]
          exact hchained.pure start
  · exact hchained.pure start
termination_by (size - start).toNat

/-- A property of the symbols of a production that is kept along a chain is one of the
production. -/
theorem Production.match_chained (hchained : Matching.Chained holds) {production : Production}
    (hsymbols : ∀ symbol ∈ production, ∀ position,
      holds (Symbol.matchModified tokens call symbol position)) (start : Int) :
    holds (Production.matchAt tokens call production start) := by
  induction production generalizing start with
  | nil => exact hchained.pure (some start)
  | cons symbol rest ih =>
      obtain ⟨hfirst, hrest⟩ := List.forall_mem_cons.1 hsymbols
      rw [Production.matchAt_cons]
      refine hchained.bind (hfirst start) fun next _ => ?_
      cases next with
      | none => exact hchained.pure none
      | some middle => exact ih hrest middle

/-- A property of the symbols of a definition that is kept along a chain is one of the
definition. -/
theorem Definition.match_chained (hchained : Matching.Chained holds) {definition : Definition}
    (hsymbols : ∀ production ∈ definition, ∀ symbol ∈ production, ∀ position,
      holds (Symbol.matchModified tokens call symbol position)) (start : Int) :
    holds (Definition.matchAt tokens call definition start) := by
  induction definition with
  | nil => exact hchained.pure none
  | cons production rest ih =>
      obtain ⟨hfirst, hrest⟩ := List.forall_mem_cons.1 hsymbols
      rw [Definition.matchAt]
      refine hchained.bind (Production.match_chained hchained hfirst start) fun finish _ => ?_
      cases finish with
      | none => exact ih hrest
      | some position => exact hchained.pure (some position)

/-- Matching a symbol keeps what its calls have, with its modifier and without. -/
theorem Symbol.match_keeps (hkept : Matching.Kept tokens holds) {symbol : Symbol}
    (h : ∀ name ∈ symbol.references, ∀ position, holds (call name position)) (start : Int) :
    holds (Symbol.matchAt tokens call symbol start) ∧
      holds (Symbol.matchModified tokens call symbol start) := by
  have hunmatchable (body : Symbol) : holds (do
      Traced.record (.unmatchable body)
      return none : Traced (Option Int)) :=
    hkept.bind (hkept.unmatchable body) fun _ _ => hkept.pure none
  induction symbol using Symbol.induction generalizing start with
  | terminal literal => exact ⟨hkept.token _ _ start, hkept.token _ _ start⟩
  | charClass pattern => exact ⟨hkept.token _ _ start, hkept.token _ _ start⟩
  | unknown code => exact ⟨hunmatchable _, hunmatchable _⟩
  | reference name =>
      have hcall := h name (List.mem_singleton_self name) start
      exact ⟨hcall, hcall⟩
  | group alternatives ih =>
      have hgroup : holds (Definition.matchAt tokens call alternatives start) :=
        Definition.match_chained hkept.toChained
          (fun production hproduction symbol hsymbol position =>
            (ih production hproduction symbol hsymbol (fun name hname =>
              h name (Definition.mem_references hproduction hsymbol hname)) position).2) start
      exact ⟨hgroup, hgroup⟩
  | optional body ih =>
      -- By itself a modified symbol matches nothing, so only the modified match has calls.
      refine ⟨hunmatchable _, ?_⟩
      rw [Symbol.matchModified, ← bind_pure_comp]
      exact hkept.bind (ih h start).1 fun next _ => hkept.pure _
  | repeated body ih =>
      refine ⟨hunmatchable _, ?_⟩
      rw [Symbol.matchModified, ← bind_pure_comp]
      exact hkept.bind (Matching.advance_chained hkept.toChained (fun position => (ih h position).1)
        _ start) fun next _ => hkept.pure _

/-- Matching a definition keeps what the calls of its references have. -/
theorem Definition.match_kept (hkept : Matching.Kept tokens holds) {definition : Definition}
    (h : ∀ name ∈ Definition.references definition, ∀ position, holds (call name position))
    (start : Int) : holds (Definition.matchAt tokens call definition start) :=
  Definition.match_chained hkept.toChained (fun _ hproduction _ hsymbol position =>
    (Symbol.match_keeps hkept (fun name hname =>
      h name (Definition.mem_references hproduction hsymbol hname)) position).2) start

end Kept

/-! ## What two matches have in common -/

/-- A relation between computations that each computation has to itself, and that is kept when
computations follow each other. -/
structure Matching.Compatible (relates : {α : Type} → Traced α → Traced α → Prop) : Prop where
  refl {α : Type} (run : Traced α) : relates run run
  bind {α β : Type} {first second : Traced α} {next further : α → Traced β}
    (hfirst : relates first second) (hnext : ∀ value, relates (next value) (further value)) :
    relates (first >>= next) (second >>= further)

section Compatible

variable {relates : {α : Type} → Traced α → Traced α → Prop}

omit [UnicodeData] in
/-- Repetitions of related steps are related. -/
theorem Matching.advance_related (hcompatible : Matching.Compatible relates)
    {step further : Int → Traced (Option Int)}
    (h : ∀ position, relates (step position) (further position)) (size : Nat) (start : Int) :
    relates (Matching.advance step size start) (Matching.advance further size start) := by
  rw [Matching.advance, Matching.advance]
  split
  · refine hcompatible.bind (h start) fun next => ?_
    cases next with
    | none => exact hcompatible.refl _
    | some position =>
        by_cases hnext : start < position
        · simp only [hnext, dite_true]
          exact Matching.advance_related hcompatible h size position
        · simp only [hnext, dite_false]
          exact hcompatible.refl _
  · exact hcompatible.refl _
termination_by (size - start).toNat

/-- Two ways of calling rules match a symbol in related ways, with its modifier and without, if what
the symbol refers to is called in related ways. -/
def Symbol.MatchesRelated (tokens : List String) (call other : String → Int → Traced (Option Int))
    (relates : {α : Type} → Traced α → Traced α → Prop) (symbol : Symbol) : Prop :=
  (∀ name ∈ symbol.references, ∀ position, relates (call name position) (other name position)) →
    ∀ start, relates (Symbol.matchAt tokens call symbol start)
        (Symbol.matchAt tokens other symbol start) ∧
      relates (Symbol.matchModified tokens call symbol start)
        (Symbol.matchModified tokens other symbol start)

/-- A production is matched in related ways if its symbols are. -/
theorem Production.match_related (hcompatible : Matching.Compatible relates)
    {production : Production}
    (hsymbols : ∀ symbol ∈ production, symbol.MatchesRelated tokens call other relates)
    (h : ∀ name ∈ Production.references production, ∀ position,
      relates (call name position) (other name position)) (start : Int) :
    relates (Production.matchAt tokens call production start)
      (Production.matchAt tokens other production start) := by
  induction production generalizing start with
  | nil => exact hcompatible.refl _
  | cons symbol rest ih =>
      rw [Production.references] at h
      obtain ⟨hfirst, hrest⟩ := List.forall_mem_append.1 h
      rw [Production.matchAt_cons, Production.matchAt_cons]
      refine hcompatible.bind (hsymbols symbol List.mem_cons_self hfirst start).2 fun next => ?_
      cases next with
      | none => exact hcompatible.refl _
      | some middle =>
          exact ih (fun s hs => hsymbols s (List.mem_cons_of_mem symbol hs)) hrest middle

/-- A definition is matched in related ways if its symbols are. -/
theorem Definition.match_relates (hcompatible : Matching.Compatible relates)
    {definition : Definition}
    (hsymbols : ∀ production ∈ definition, ∀ symbol ∈ production,
      symbol.MatchesRelated tokens call other relates)
    (h : ∀ name ∈ Definition.references definition, ∀ position,
      relates (call name position) (other name position)) (start : Int) :
    relates (Definition.matchAt tokens call definition start)
      (Definition.matchAt tokens other definition start) := by
  induction definition with
  | nil => exact hcompatible.refl _
  | cons production rest ih =>
      rw [Definition.references] at h
      obtain ⟨hfirst, hrest⟩ := List.forall_mem_append.1 h
      rw [Definition.matchAt, Definition.matchAt]
      refine hcompatible.bind (Production.match_related hcompatible
        (hsymbols production List.mem_cons_self) hfirst start) fun finish => ?_
      cases finish with
      | none =>
          exact ih (fun later hlater => hsymbols later (List.mem_cons_of_mem production hlater))
            hrest
      | some position => exact hcompatible.refl _

/-- Every symbol is matched in related ways if what it refers to is called in related ways. -/
theorem Symbol.matches_related (hcompatible : Matching.Compatible relates) (symbol : Symbol) :
    symbol.MatchesRelated tokens call other relates := by
  induction symbol using Symbol.induction with
  | terminal literal => exact fun _ _ => ⟨hcompatible.refl _, hcompatible.refl _⟩
  | charClass pattern => exact fun _ _ => ⟨hcompatible.refl _, hcompatible.refl _⟩
  | unknown code => exact fun _ _ => ⟨hcompatible.refl _, hcompatible.refl _⟩
  | reference name =>
      intro h start
      have hcall := h name (List.mem_singleton_self name) start
      exact ⟨hcall, hcall⟩
  | group alternatives ih =>
      intro h start
      have hgroup := Definition.match_relates hcompatible ih h start
      exact ⟨hgroup, hgroup⟩
  | optional body ih =>
      intro h start
      refine ⟨hcompatible.refl _, ?_⟩
      rw [Symbol.matchModified, Symbol.matchModified, ← bind_pure_comp, ← bind_pure_comp]
      exact hcompatible.bind (ih h start).1 fun next => hcompatible.refl _
  | repeated body ih =>
      intro h start
      refine ⟨hcompatible.refl _, ?_⟩
      rw [Symbol.matchModified, Symbol.matchModified, ← bind_pure_comp, ← bind_pure_comp]
      exact hcompatible.bind
        (Matching.advance_related hcompatible (fun position => (ih h position).1) _ start)
        fun next => hcompatible.refl _

/-- A definition is matched in related ways if what it refers to is called in related ways. -/
theorem Definition.match_related (hcompatible : Matching.Compatible relates)
    {definition : Definition}
    (h : ∀ name ∈ Definition.references definition, ∀ position,
      relates (call name position) (other name position)) (start : Int) :
    relates (Definition.matchAt tokens call definition start)
      (Definition.matchAt tokens other definition start) :=
  Definition.match_relates hcompatible
    (fun _ _ symbol _ => Symbol.matches_related hcompatible symbol) h start

end Compatible

end Bnf
