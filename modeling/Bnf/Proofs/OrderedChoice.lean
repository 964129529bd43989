import Bnf.Proofs.Modifiers
import Bnf.Proofs.UsableRules
import Bnf.UnicodeData.Version14
import Mathlib

/-!
# Ordered choice and greed

What a definition comes to at a position can be said without running the matcher: it is a finish
position or a failure. `Symbol.Yields`, `Production.Yields` and `Definition.Yields` are the rules of
this, those of ordered choice and greedy repetition. A repetition goes on from lap to lap, also at
the end of the tokens, until its body fails or consumes nothing. `Settles` says that exactly one
outcome is true by these rules, and that a run ends in it. From a usable name every symbol settles,
which is `call_settles`, and `ordered_choice` says so of all rules of a grammar.
-/

namespace Bnf

variable [UnicodeData]

mutual
/-- What a symbol comes to at a position: the position where it ends, or a failure. -/
inductive Symbol.Yields (rules : String → Option Definition) (tokens : List String) :
    Symbol → Nat → Option Nat → Prop where
  | terminal {literal start} (h : tokens[start]? = some literal) :
      Symbol.Yields rules tokens (.terminal literal) start (some (start + 1))
  | noTerminal {literal start} (h : tokens[start]? ≠ some literal) :
      Symbol.Yields rules tokens (.terminal literal) start none
  | charClass {pattern start token} (h : tokens[start]? = some token)
      (haccepts : Matching.patternAccepts pattern token = true) :
      Symbol.Yields rules tokens (.charClass pattern) start (some (start + 1))
  | noCharClass {pattern start}
      (h : ∀ token, tokens[start]? = some token → Matching.patternAccepts pattern token ≠ true) :
      Symbol.Yields rules tokens (.charClass pattern) start none
  | unknown (code start) : Symbol.Yields rules tokens (.unknown code) start none
  | reference {name definition start outcome} (hrule : rules name = some definition)
      (h : Definition.Yields rules tokens definition start outcome) :
      Symbol.Yields rules tokens (.reference name) start outcome
  | group {alternatives start outcome}
      (h : Definition.Yields rules tokens alternatives start outcome) :
      Symbol.Yields rules tokens (.group alternatives) start outcome
  | present {body start finish} (h : Symbol.Yields rules tokens body start (some finish)) :
      Symbol.Yields rules tokens (.optional body) start (some finish)
  | omitted {body start} (h : Symbol.Yields rules tokens body start none) :
      Symbol.Yields rules tokens (.optional body) start (some start)
  | ended {body start} (h : Symbol.Yields rules tokens body start none) :
      Symbol.Yields rules tokens (.repeated body) start (some start)
  | still {body start} (h : Symbol.Yields rules tokens body start (some start)) :
      Symbol.Yields rules tokens (.repeated body) start (some start)
  | lap {body start next finish} (h : Symbol.Yields rules tokens body start (some next))
      (hnext : start < next)
      (hrest : Symbol.Yields rules tokens (.repeated body) next (some finish)) :
      Symbol.Yields rules tokens (.repeated body) start (some finish)

/-- What a production comes to at a position: its symbols follow each other, and the first that
fails makes it fail. -/
inductive Production.Yields (rules : String → Option Definition) (tokens : List String) :
    List Symbol → Nat → Option Nat → Prop where
  | nil (start) : Production.Yields rules tokens [] start (some start)
  | cons {symbol symbols start middle outcome}
      (hfirst : Symbol.Yields rules tokens symbol start (some middle))
      (hrest : Production.Yields rules tokens symbols middle outcome) :
      Production.Yields rules tokens (symbol :: symbols) start outcome
  | fails {symbol symbols start} (hfirst : Symbol.Yields rules tokens symbol start none) :
      Production.Yields rules tokens (symbol :: symbols) start none

/-- What a definition comes to at a position: the first production that does not fail decides, and
the definition fails if all of them do. -/
inductive Definition.Yields (rules : String → Option Definition) (tokens : List String) :
    List (List Symbol) → Nat → Option Nat → Prop where
  | nil (start) : Definition.Yields rules tokens [] start none
  | first {production rest start finish}
      (h : Production.Yields rules tokens production start (some finish)) :
      Definition.Yields rules tokens (production :: rest) start (some finish)
  | later {production rest start outcome}
      (hfirst : Production.Yields rules tokens production start none)
      (hrest : Definition.Yields rules tokens rest start outcome) :
      Definition.Yields rules tokens (production :: rest) start outcome
end

namespace Matching

/-- Of what may come out at a start, one outcome alone is true, and a run ends in it. A finish lies
between the start and the end of the tokens. -/
structure Settles (tokens : List String) (start : Nat) (yields : Option Nat → Prop)
    (run : Traced (Option Int)) (outcome : Option Nat) : Prop where
  ends : run.result = .ok (outcome.map Nat.cast)
  yields_iff : ∀ other, yields other ↔ other = outcome
  within : ∀ finish, outcome = some finish → start ≤ finish ∧ finish ≤ tokens.length

variable {tokens : List String}

omit [UnicodeData] in
/-- What is settled is yielded. -/
theorem Settles.yields {start : Nat} {yields : Option Nat → Prop} {run : Traced (Option Int)}
    {outcome : Option Nat} (h : Settles tokens start yields run outcome) : yields outcome :=
  (h.yields_iff outcome).2 rfl

omit [UnicodeData] in
/-- Nothing else is yielded than what is settled. -/
theorem Settles.eq {start : Nat} {yields : Option Nat → Prop} {run : Traced (Option Int)}
    {outcome other : Option Nat} (h : Settles tokens start yields run outcome)
    (hother : yields other) : other = outcome :=
  (h.yields_iff other).1 hother

omit [UnicodeData] in
/-- To settle an outcome is to yield it, and to yield nothing else. -/
theorem Settles.intro {start : Nat} {yields : Option Nat → Prop} {run : Traced (Option Int)}
    {outcome : Option Nat} (hends : run.result = .ok (outcome.map Nat.cast))
    (hyields : yields outcome) (honly : ∀ other, yields other → other = outcome)
    (hwithin : ∀ finish, outcome = some finish → start ≤ finish ∧ finish ≤ tokens.length) :
    Settles tokens start yields run outcome where
  ends := hends
  yields_iff other := ⟨honly other, fun heq => heq ▸ hyields⟩
  within := hwithin

omit [UnicodeData] in
/-- A run ends in an outcome exactly if this is what is yielded. -/
theorem Settles.result_iff {start : Nat} {yields : Option Nat → Prop} {run : Traced (Option Int)}
    {outcome : Option Nat} (h : Settles tokens start yields run outcome) (other : Option Nat) :
    run.result = .ok (other.map Nat.cast) ↔ yields other := by
  rw [h.ends, h.yields_iff, Except.ok.injEq]
  exact ⟨fun heq => (Option.map_injective Int.ofNat_injective heq).symm,
    fun heq => by rw [heq]⟩

omit [UnicodeData] in
/-- One outcome alone is yielded. -/
theorem Settles.existsUnique {start : Nat} {yields : Option Nat → Prop}
    {run : Traced (Option Int)} {outcome : Option Nat}
    (h : Settles tokens start yields run outcome) : ∃! outcome, yields outcome :=
  ⟨outcome, h.yields, fun _ => h.eq⟩

omit [UnicodeData] in
/-- A demanded token at a position that is counted from the front: it is there and accepted, or the
symbol matches nothing. -/
theorem one_token_of_nat (symbol : Symbol) (accepts : String → Bool) (start : Nat) :
    (oneToken tokens symbol accepts start).result =
      .ok (((tokens[start]?.filter accepts).map fun _ => start + 1).map Nat.cast) := by
  rw [result_one_token, tokenAt?, if_pos (Int.natCast_nonneg start), Int.toNat_natCast]
  by_cases hstart : start < tokens.length
  · rw [if_pos (by omega), List.getElem?_eq_getElem hstart]
    cases haccepts : accepts tokens[start] <;> simp [Option.filter, haccepts]
  · rw [if_neg (by omega), List.getElem?_eq_none (by omega)]
    rfl

omit [UnicodeData] in
/-- A demanded token settles what is true of the token at the start, or of its absence. -/
theorem one_token_settles {symbol : Symbol} {accepts : String → Bool} {start : Nat}
    {yields : Option Nat → Prop}
    (hyields : ∀ other, yields other ↔
      other = (tokens[start]?.filter accepts).map fun _ => start + 1) :
    ∃ outcome, Settles tokens start yields (oneToken tokens symbol accepts start) outcome := by
  refine ⟨_, one_token_of_nat symbol accepts start, hyields, fun finish hfinish => ?_⟩
  obtain ⟨token, htoken, rfl⟩ := Option.map_eq_some_iff.1 hfinish
  obtain ⟨hlength, -⟩ := List.getElem?_eq_some_iff.1 (Option.filter_eq_some_iff.1 htoken).1
  omega

end Matching

section Settling

variable {rules : String → Option Definition} {tokens : List String}
  {call : String → Int → Traced (Option Int)}

/-- With its modifier, a symbol settles at every position what it yields there. -/
def Symbol.Settled (rules : String → Option Definition) (tokens : List String)
    (call : String → Int → Traced (Option Int)) (symbol : Symbol) : Prop :=
  ∀ start : Nat, start ≤ tokens.length → ∃ outcome,
    Matching.Settles tokens start (Symbol.Yields rules tokens symbol start)
      (Symbol.matchModified tokens call symbol start) outcome

/-- A production of settled symbols is settled. -/
theorem Production.match_settles {production : Production}
    (hsymbols : ∀ symbol ∈ production, symbol.Settled rules tokens call) {start : Nat}
    (hstart : start ≤ tokens.length) :
    ∃ outcome, Matching.Settles tokens start (Production.Yields rules tokens production start)
      (Production.matchAt tokens call production start) outcome := by
  induction production generalizing start with
  | nil =>
      refine ⟨some start, .intro rfl (.nil start) ?_ fun finish hfinish => ?_⟩
      · rintro other ⟨⟩
        rfl
      · cases hfinish
        exact ⟨Nat.le_refl start, hstart⟩
  | cons symbol rest ih =>
      obtain ⟨first, hfirst⟩ := hsymbols symbol List.mem_cons_self start hstart
      have hresult : (Production.matchAt tokens call (symbol :: rest) start).result =
          match first with
          | none => .ok none
          | some middle => (Production.matchAt tokens call rest middle).result := by
        rw [Production.matchAt_cons, Traced.result_bind, hfirst.ends]
        cases first <;> rfl
      cases first with
      | none =>
          refine ⟨none, .intro hresult (.fails hfirst.yields) ?_
            fun finish hfinish => nomatch hfinish⟩
          rintro other (_ | ⟨hmiddle, -⟩ | -)
          · cases hfirst.eq hmiddle
          · rfl
      | some middle =>
          obtain ⟨hle, hmiddle⟩ := hfirst.within middle rfl
          obtain ⟨outcome, hrest⟩ :=
            ih (fun s hs => hsymbols s (List.mem_cons_of_mem symbol hs)) hmiddle
          refine ⟨outcome, .intro (hresult.trans hrest.ends) (.cons hfirst.yields hrest.yields) ?_
            fun finish hfinish => ?_⟩
          · rintro other (_ | ⟨hother, hyields⟩ | hfails)
            · cases hfirst.eq hother
              exact hrest.eq hyields
            · cases hfirst.eq hfails
          · obtain ⟨hmore, hfinish⟩ := hrest.within finish hfinish
            exact ⟨Nat.le_trans hle hmore, hfinish⟩

/-- A definition of settled symbols is settled. -/
theorem Definition.match_settles {definition : Definition}
    (hsymbols : ∀ production ∈ definition, ∀ symbol ∈ production,
      symbol.Settled rules tokens call) {start : Nat} (hstart : start ≤ tokens.length) :
    ∃ outcome, Matching.Settles tokens start (Definition.Yields rules tokens definition start)
      (Definition.matchAt tokens call definition start) outcome := by
  induction definition with
  | nil =>
      refine ⟨none, .intro rfl (.nil start) ?_ fun finish hfinish => nomatch hfinish⟩
      rintro other ⟨⟩
      rfl
  | cons production rest ih =>
      obtain ⟨first, hfirst⟩ :=
        Production.match_settles (hsymbols production List.mem_cons_self) hstart
      have hresult : (Definition.matchAt tokens call (production :: rest) start).result =
          match first with
          | none => (Definition.matchAt tokens call rest start).result
          | some finish => .ok (some finish) := by
        rw [Definition.matchAt, Traced.result_bind, hfirst.ends]
        cases first <;> rfl
      cases first with
      | none =>
          obtain ⟨outcome, hrest⟩ :=
            ih fun later hlater => hsymbols later (List.mem_cons_of_mem production hlater)
          refine ⟨outcome, .intro (hresult.trans hrest.ends) (.later hfirst.yields hrest.yields) ?_
            hrest.within⟩
          rintro other (_ | hmatch | ⟨-, hyields⟩)
          · cases hfirst.eq hmatch
          · exact hrest.eq hyields
      | some finish =>
          refine ⟨some finish, .intro hresult (.first hfirst.yields) ?_ hfirst.within⟩
          rintro other (_ | hmatch | ⟨hfails, -⟩)
          · exact hfirst.eq hmatch
          · cases hfirst.eq hfails

/-- The repetition of a body that settles everywhere settles one position. That it does not try its
body at the end of the tokens makes no difference: there the body cannot but fail or stand still. -/
theorem Symbol.advance_settles {body : Symbol}
    (hbody : ∀ start : Nat, start ≤ tokens.length → ∃ outcome,
      Matching.Settles tokens start (Symbol.Yields rules tokens body start)
        (Symbol.matchAt tokens call body start) outcome) {start : Nat}
    (hstart : start ≤ tokens.length) :
    ∃ finish, Matching.Settles tokens start (Symbol.Yields rules tokens (.repeated body) start)
      (some <$> Matching.advance (Symbol.matchAt tokens call body) tokens.length start)
      (some finish) := by
  obtain ⟨first, hfirst⟩ := hbody start hstart
  by_cases hlap : ∃ next, first = some next ∧ start < next
  · obtain ⟨next, rfl, hnext⟩ := hlap
    obtain ⟨-, hle⟩ := hfirst.within next rfl
    obtain ⟨finish, hrest⟩ := Symbol.advance_settles hbody hle
    have hrun : (Matching.advance (Symbol.matchAt tokens call body) tokens.length start).result =
        (Matching.advance (Symbol.matchAt tokens call body) tokens.length next).result := by
      have hinside : (start : Int) < tokens.length := by omega
      have hforward : (start : Int) < (next : Int) := by omega
      rw [Matching.advance, dif_pos hinside, Traced.result_bind, hfirst.ends]
      simp only [Option.map_some, Except.bind, hforward, dite_true]
    refine ⟨finish, .intro ?_ (.lap hfirst.yields hnext hrest.yields) ?_ fun last hlast => ?_⟩
    · rw [Traced.result_map, hrun, ← Traced.result_map]
      exact hrest.ends
    · intro other h
      cases h with
      | ended h => cases hfirst.eq h
      | still h =>
          cases hfirst.eq h
          omega
      | lap h _ hlater =>
          cases hfirst.eq h
          exact hrest.eq hlater
    · obtain ⟨hmore, hfinish⟩ := hrest.within last hlast
      omega
  · -- Without a lap the body has failed or has stood still.
    have hstay : first = none ∨ first = some start := by
      cases first with
      | none => exact .inl rfl
      | some next =>
          obtain ⟨hle, -⟩ := hfirst.within next rfl
          have hnext : ¬ start < next := fun hlt => hlap ⟨next, rfl, hlt⟩
          exact .inr (by rw [Nat.le_antisymm hle (by omega)])
    refine ⟨start, .intro ?_ ?_ ?_ fun finish hfinish => ?_⟩
    · rw [Traced.result_map, Matching.advance]
      split
      · rw [Traced.result_bind, hfirst.ends]
        rcases hstay with rfl | rfl
        · rfl
        · simp [Except.bind, Except.map]
      · rfl
    · rcases hstay with rfl | rfl
      · exact .ended hfirst.yields
      · exact .still hfirst.yields
    · intro other h
      cases h with
      | ended _ => rfl
      | still _ => rfl
      | lap h hnext _ => exact absurd ⟨_, (hfirst.eq h).symm, hnext⟩ hlap
    · cases hfinish
      exact ⟨Nat.le_refl start, hstart⟩
termination_by tokens.length - start

/-- A symbol without a modifier matches in a production as it does by itself. -/
theorem Symbol.IsBase.matchModified_eq {symbol : Symbol} (h : symbol.IsBase) :
    Symbol.matchModified tokens call symbol = Symbol.matchAt tokens call symbol := by
  refine Symbol.match_modified_of_plain ?_ ?_
  all_goals
    rintro body rfl
    exact h

/-- A literal yields what follows the token at the start, if this is the literal. -/
theorem Symbol.yields_terminal_iff {literal : String} {start : Nat} {outcome : Option Nat} :
    Symbol.Yields rules tokens (.terminal literal) start outcome ↔
      outcome = (tokens[start]?.filter (· == literal)).map fun _ => start + 1 := by
  by_cases h : tokens[start]? = some literal
  · have hfilter : tokens[start]?.filter (· == literal) = some literal := by simp [h]
    rw [hfilter]
    constructor
    · intro hyields
      cases hyields with
      | terminal _ => rfl
      | noTerminal hno => exact absurd h hno
    · rintro rfl
      exact .terminal h
  · have hfilter : tokens[start]?.filter (· == literal) = none := by
      refine Option.filter_eq_none_iff.2 fun token htoken haccepts => ?_
      exact h (eq_of_beq haccepts ▸ htoken)
    rw [hfilter]
    constructor
    · intro hyields
      cases hyields with
      | terminal hyes => exact absurd hyes h
      | noTerminal _ => rfl
    · rintro rfl
      exact .noTerminal h

/-- A set yields what follows the token at the start, if this is a character of the set. -/
theorem Symbol.yields_charClass_iff {pattern : String} {start : Nat} {outcome : Option Nat} :
    Symbol.Yields rules tokens (.charClass pattern) start outcome ↔
      outcome = (tokens[start]?.filter (Matching.patternAccepts pattern)).map
        fun _ => start + 1 := by
  cases hfilter : tokens[start]?.filter (Matching.patternAccepts pattern) with
  | some token =>
      obtain ⟨htoken, haccepts⟩ := Option.filter_eq_some_iff.1 hfilter
      constructor
      · intro h
        cases h with
        | charClass _ _ => rfl
        | noCharClass hno => exact absurd haccepts (hno token htoken)
      · rintro rfl
        exact .charClass htoken haccepts
  | none =>
      have hno := Option.filter_eq_none_iff.1 hfilter
      constructor
      · intro h
        cases h with
        | charClass htoken haccepts => exact absurd haccepts (hno _ htoken)
        | noCharClass _ => rfl
      · rintro rfl
        exact .noCharClass hno

/-- If what a symbol refers to settles, the symbol does, unless a modified symbol is modified in
it. -/
theorem Symbol.settled {symbol : Symbol} (hunstacked : symbol.Unstacked)
    (hcall : ∀ name ∈ symbol.references, (Symbol.reference name).Settled rules tokens call) :
    symbol.Settled rules tokens call := by
  induction symbol using Symbol.induction with
  | terminal literal =>
      exact fun start _ => Matching.one_token_settles fun other => Symbol.yields_terminal_iff
  | charClass pattern =>
      exact fun start _ => Matching.one_token_settles fun other => Symbol.yields_charClass_iff
  | reference name => exact hcall name (List.mem_singleton_self name)
  | unknown code =>
      intro start _
      refine ⟨none, .intro rfl (.unknown code start) ?_ fun finish hfinish => nomatch hfinish⟩
      rintro other ⟨⟩
      rfl
  | group alternatives ih =>
      intro start hstart
      cases hunstacked with
      | group h =>
          have hsymbols : ∀ production ∈ alternatives, ∀ symbol ∈ production,
              symbol.Settled rules tokens call := fun production hproduction symbol hsymbol =>
            ih production hproduction symbol hsymbol (h production hproduction symbol hsymbol)
              fun name hname => hcall name (Definition.mem_references hproduction hsymbol hname)
          obtain ⟨outcome, hsettles⟩ := Definition.match_settles hsymbols hstart
          refine ⟨outcome, .intro hsettles.ends (.group hsettles.yields) ?_ hsettles.within⟩
          intro other hyields
          cases hyields with
          | group h => exact hsettles.eq h
  | optional body ih =>
      intro start hstart
      cases hunstacked with
      | optional hbase hbody =>
          obtain ⟨first, hfirst⟩ := ih hbody hcall start hstart
          rw [hbase.matchModified_eq] at hfirst
          refine ⟨some (first.getD start), .intro ?_ ?_ ?_ fun finish hfinish => ?_⟩
          · rw [Symbol.matchModified, Traced.result_map, hfirst.ends]
            cases first <;> rfl
          · cases first with
            | none => exact .omitted hfirst.yields
            | some finish => exact .present hfirst.yields
          · intro other hyields
            cases hyields with
            | present h | omitted h =>
                rw [← hfirst.eq h]
                rfl
          · cases hfinish
            cases first with
            | none => exact ⟨Nat.le_refl start, hstart⟩
            | some finish => exact hfirst.within finish rfl
  | repeated body ih =>
      intro start hstart
      cases hunstacked with
      | repeated hbase hbody =>
          have hsettled := ih hbody hcall
          rw [Symbol.Settled, hbase.matchModified_eq] at hsettled
          obtain ⟨finish, hsettles⟩ := Symbol.advance_settles hsettled hstart
          exact ⟨some finish, hsettles⟩

end Settling

namespace Grammar

variable {grammar : Grammar} {tokens : List String}

/-- A usable name settles what it yields. -/
theorem call_settles (hconsistent : grammar.Consistent) {name : String}
    (h : grammar.Usable name) :
    (Symbol.reference name).Settled grammar.definition? tokens (grammar.call tokens) := by
  refine usable_induction
    (motive := fun name =>
      (Symbol.reference name).Settled grammar.definition? tokens (grammar.call tokens))
    (fun name definition husable hdefinition ih start hstart => ?_) h
  have hunstacked := hconsistent.unstacked hdefinition
  have hsymbols : ∀ production ∈ definition, ∀ symbol ∈ production,
      symbol.Settled grammar.definition? tokens (grammar.call tokens) :=
    fun production hproduction symbol hsymbol =>
      Symbol.settled (hunstacked production hproduction symbol hsymbol) fun reference hreference =>
        ih reference (Definition.mem_references hproduction hsymbol hreference)
  obtain ⟨outcome, hsettles⟩ := Definition.match_settles hsymbols hstart
  refine ⟨outcome, .intro ((result_call husable.free hdefinition start).trans hsettles.ends)
    (.reference hdefinition hsettles.yields) ?_ hsettles.within⟩
  intro other hyields
  cases hyields with
  | reference hrule h =>
      rw [hdefinition] at hrule
      cases hrule
      exact hsettles.eq h

/-- After every history, and for every name from which neither a recursive nor an undefined name can
be reached: from any start within the tokens the name matches up to a finish exactly if it yields
this finish, it does not match exactly if it yields a failure, and one outcome alone is yielded. A
sentence is valid for the name exactly if the name yields the number of its words from the first
one on. -/
theorem ordered_choice (sources : List (String × String)) (operations : List Operation)
    (name : String) :
    let grammar := run operations (ofSources sources)
    grammar.Usable name →
    (∀ (tokens : List String) (start : Nat), start ≤ tokens.length →
      (∀ finish : Nat, (grammar.call tokens name start).result = .ok (some (finish : Int)) ↔
        Symbol.Yields grammar.definition? tokens (.reference name) start (some finish)) ∧
      ((grammar.call tokens name start).result = .ok none ↔
        Symbol.Yields grammar.definition? tokens (.reference name) start none) ∧
      ∃! outcome, Symbol.Yields grammar.definition? tokens (.reference name) start outcome) ∧
    ∀ sentence, (grammar.validate sentence name).1.result = .ok true ↔
      Symbol.Yields grammar.definition? (words sentence) (.reference name) 0
        (some (words sentence).length) := by
  intro grammar husable
  have hconsistent : grammar.Consistent := consistent_invariant.run sources operations
  have hknows : grammar.Knows grammar.acyclic := knows_invariant.run sources operations
  refine ⟨fun tokens start hstart => ?_, fun sentence => ?_⟩
  · obtain ⟨outcome, hsettles⟩ := call_settles hconsistent husable start hstart
    exact ⟨fun finish => hsettles.result_iff (some finish), hsettles.result_iff none,
      hsettles.existsUnique⟩
  · have hsettled : (Symbol.reference name).Settled grammar.definition? (words sentence)
        (grammar.call (words sentence)) := call_settles hconsistent husable
    obtain ⟨outcome, hsettles⟩ := hsettled 0 (Nat.zero_le _)
    rw [validate_eq_true_iff hknows (husable.complete name .refl) husable.free]
    exact hsettles.result_iff (some (words sentence).length)

end Grammar

end Bnf

namespace Bnf.Grammar

/-- A repetition that leaves nothing for the symbol behind it. -/
def greedy : Grammar :=
  ofSources [("start", "<word>* \"a\" | \"a\""), ("word", "\"a\" | \"b\"?")]

/-- Greed and the first alternative that matches: the words are all taken by the repetition, and
then the second alternative takes the first word alone. -/
theorem ordered_choice_greedy :
    greedy.Usable "start" ∧ (0 ≤ ["a", "b"].length) ∧
      Symbol.Yields greedy.definition? ["a", "b"] (.reference "start") 0 (some 1) := by
  have hnone : (greedy.cycleFrom "start").1 = none := by cbv
  have hknows : greedy.Knows greedy.acyclic := knows_invariant.ofSources _
  have husable : greedy.Usable "start" :=
    ⟨free_of_cycleFrom hknows hnone, complete_of_closed ["start", "word"] (by cbv) (by simp)⟩
  have hrun : (greedy.call ["a", "b"] "start" 0).result = .ok (some 1) := by cbv
  exact ⟨husable, by decide, (((ordered_choice _ [] "start" husable).1 ["a", "b"] 0
    (by decide)).1 1).1 hrun⟩

end Bnf.Grammar
