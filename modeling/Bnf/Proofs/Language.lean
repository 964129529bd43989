import Bnf.Grammar.Validation
import Bnf.Proofs.Matching
import Bnf.UnicodeData.Version14
import Mathlib

/-!
# The sentences of a definition

Every definition has its ordinary sentences, without any order among its alternatives and without
greed: `Symbol.Derives`, `Production.Derives` and `Definition.Derives` say which token lists they
are, over the rules of a grammar. Whatever the matcher consumes is such a sentence. This is
`matching_sound`, and by it a sentence that is found valid for a rule belongs to the rule.
-/

namespace Bnf

variable [UnicodeData]

mutual
/-- A symbol derives a list of tokens over the rules. -/
inductive Symbol.Derives (rules : String → Option Definition) : Symbol → List String → Prop where
  | terminal (literal) : Symbol.Derives rules (.terminal literal) [literal]
  | charClass {pattern token} (h : Matching.patternAccepts pattern token = true) :
      Symbol.Derives rules (.charClass pattern) [token]
  | reference {name definition tokens} (hrule : rules name = some definition)
      (h : Definition.Derives rules definition tokens) :
      Symbol.Derives rules (.reference name) tokens
  | group {alternatives tokens} (h : Definition.Derives rules alternatives tokens) :
      Symbol.Derives rules (.group alternatives) tokens
  | omitted (body) : Symbol.Derives rules (.optional body) []
  | present {body tokens} (h : Symbol.Derives rules body tokens) :
      Symbol.Derives rules (.optional body) tokens
  | none (body) : Symbol.Derives rules (.repeated body) []
  | more {body first rest} (hfirst : Symbol.Derives rules body first)
      (hrest : Symbol.Derives rules (.repeated body) rest) :
      Symbol.Derives rules (.repeated body) (first ++ rest)

/-- A production derives what its symbols derive one after the other. -/
inductive Production.Derives (rules : String → Option Definition) :
    List Symbol → List String → Prop where
  | nil : Production.Derives rules [] []
  | cons {symbol symbols first rest} (hfirst : Symbol.Derives rules symbol first)
      (hrest : Production.Derives rules symbols rest) :
      Production.Derives rules (symbol :: symbols) (first ++ rest)

/-- A definition derives what any of its productions derives. -/
inductive Definition.Derives (rules : String → Option Definition) :
    List (List Symbol) → List String → Prop where
  | intro {production definition tokens} (hmem : production ∈ definition)
      (h : Production.Derives rules production tokens) : Definition.Derives rules definition tokens
end

section Derivations

variable {rules : String → Option Definition} {word : List String}

/-! ## What symbols, productions and definitions derive -/

@[simp]
theorem Symbol.derives_terminal_iff {literal : String} :
    Symbol.Derives rules (.terminal literal) word ↔ word = [literal] := by
  constructor
  · rintro ⟨⟩
    rfl
  · rintro rfl
    exact .terminal literal

@[simp]
theorem Symbol.derives_charClass_iff {pattern : String} :
    Symbol.Derives rules (.charClass pattern) word ↔
      ∃ token, Matching.patternAccepts pattern token = true ∧ word = [token] := by
  constructor
  · intro h
    cases h with
    | charClass haccepts => exact ⟨_, haccepts, rfl⟩
  · rintro ⟨token, haccepts, rfl⟩
    exact .charClass haccepts

theorem Symbol.derives_reference_iff {name : String} {definition : Definition}
    (hrule : rules name = some definition) :
    Symbol.Derives rules (.reference name) word ↔ Definition.Derives rules definition word := by
  refine ⟨fun h => ?_, .reference hrule⟩
  cases h with
  | reference hfound h => rwa [Option.some.inj (hrule.symm.trans hfound)]

@[simp]
theorem Symbol.derives_group_iff {alternatives : Definition} :
    Symbol.Derives rules (.group alternatives) word ↔
      Definition.Derives rules alternatives word := by
  refine ⟨fun h => ?_, .group⟩
  cases h with
  | group h => exact h

@[simp]
theorem Symbol.derives_optional_iff {body : Symbol} :
    Symbol.Derives rules (.optional body) word ↔ word = [] ∨ Symbol.Derives rules body word := by
  constructor
  · intro h
    cases h with
    | omitted _ => exact .inl rfl
    | present h => exact .inr h
  · rintro (rfl | h)
    · exact .omitted body
    · exact .present h

@[simp]
theorem Production.derives_nil_iff : Production.Derives rules [] word ↔ word = [] := by
  constructor
  · rintro ⟨⟩
    rfl
  · rintro rfl
    exact .nil

@[simp]
theorem Production.derives_cons_iff {symbol : Symbol} {symbols : Production} :
    Production.Derives rules (symbol :: symbols) word ↔
      ∃ first rest, word = first ++ rest ∧ Symbol.Derives rules symbol first ∧
        Production.Derives rules symbols rest := by
  constructor
  · rintro (_ | ⟨hfirst, hrest⟩)
    exact ⟨_, _, rfl, hfirst, hrest⟩
  · rintro ⟨first, rest, rfl, hfirst, hrest⟩
    exact .cons hfirst hrest

@[simp]
theorem Definition.derives_iff {definition : Definition} :
    Definition.Derives rules definition word ↔
      ∃ production ∈ definition, Production.Derives rules production word := by
  constructor
  · rintro ⟨hmem, h⟩
    exact ⟨_, hmem, h⟩
  · rintro ⟨production, hmem, h⟩
    exact .intro hmem h

/-- Induction over the words that a repeated symbol derives, from the last lap back. -/
theorem Symbol.Derives.repeated_induction {body : Symbol} {motive : List String → Prop}
    (none : motive [])
    (more : ∀ first rest, Symbol.Derives rules body first → motive rest → motive (first ++ rest))
    {word : List String} (h : Symbol.Derives rules (.repeated body) word) : motive word := by
  have hall : ∀ {symbol word}, Symbol.Derives rules symbol word →
      symbol = .repeated body → motive word := by
    -- Of productions and definitions nothing is claimed: none occurs on the way from lap to lap.
    apply @Symbol.Derives.rec _ rules (fun symbol word _ => symbol = .repeated body → motive word)
      (fun _ _ _ => True) (fun _ _ _ => True)
    case none =>
      intro _ _
      exact none
    case more =>
      intro _ first rest hfirst _ _ ih heq
      cases heq
      exact more first rest hfirst (ih rfl)
    case nil => trivial
    case cons | intro =>
      intros
      trivial
    all_goals
      intros
      rename_i heq
      cases heq
  exact hall h rfl

/-- A repeated symbol derives a sequence of words of its body, none of them empty. -/
theorem Symbol.Derives.exists_laps {body : Symbol} {word : List String}
    (h : Symbol.Derives rules (.repeated body) word) :
    ∃ laps : List (List String), word = laps.flatten ∧
      ∀ lap ∈ laps, lap ≠ [] ∧ Symbol.Derives rules body lap := by
  refine h.repeated_induction (motive := fun word => ∃ laps : List (List String),
    word = laps.flatten ∧ ∀ lap ∈ laps, lap ≠ [] ∧ Symbol.Derives rules body lap)
    ⟨[], rfl, List.forall_mem_nil _⟩ ?_
  rintro first rest hfirst ⟨laps, rfl, hlaps⟩
  by_cases hempty : first = []
  · exact ⟨laps, by rw [hempty, List.nil_append], hlaps⟩
  · exact ⟨first :: laps, rfl, List.forall_mem_cons.2 ⟨⟨hempty, hfirst⟩, hlaps⟩⟩

end Derivations

namespace Matching

/-! ## Slices -/

/-- The tokens from one position up to another. -/
def slice (tokens : List String) (start finish : Int) : List String :=
  (tokens.drop start.toNat).take (finish - start).toNat

omit [UnicodeData] in
theorem slice_self (tokens : List String) (start : Int) : slice tokens start start = [] := by
  simp [slice]

omit [UnicodeData] in
theorem slice_append {tokens : List String} {start middle finish : Int} (hstart : 0 ≤ start)
    (hfirst : start ≤ middle) (hsecond : middle ≤ finish) :
    slice tokens start middle ++ slice tokens middle finish = slice tokens start finish := by
  have hdrop : tokens.drop middle.toNat =
      (tokens.drop start.toNat).drop (middle - start).toNat := by
    rw [List.drop_drop, show start.toNat + (middle - start).toNat = middle.toNat by omega]
  have hsum : (finish - start).toNat = (middle - start).toNat + (finish - middle).toNat := by omega
  rw [slice, slice, slice, hdrop, hsum, List.take_add]

omit [UnicodeData] in
theorem slice_one {tokens : List String} {start : Int} {token : String}
    (h : tokens[start.toNat]? = some token) : slice tokens start (start + 1) = [token] := by
  obtain ⟨hlength, hget⟩ := List.getElem?_eq_some_iff.1 h
  rw [slice, show (start + 1 - start).toNat = 1 by omega, List.drop_eq_getElem_cons hlength, hget]
  rfl

omit [UnicodeData] in
theorem slice_all (tokens : List String) : slice tokens 0 tokens.length = tokens := by
  simp [slice]

/-! ## Soundness -/

/-- A match runs forward from its start and ends within the tokens, and what it consumes is
described. -/
structure Covers (tokens : List String) (describes : List String → Prop) (start finish : Int) :
    Prop where
  start_le : start ≤ finish
  finish_le : finish ≤ tokens.length
  described : describes (slice tokens start finish)

variable {tokens : List String}

omit [UnicodeData] in
/-- What stays where it is covers nothing. -/
theorem Covers.stay {describes : List String → Prop} {start : Int} (hle : start ≤ tokens.length)
    (h : describes []) : Covers tokens describes start start :=
  ⟨Int.le_refl start, hle, by rwa [slice_self]⟩

omit [UnicodeData] in
/-- Two matches in a row cover a list of tokens in two parts. -/
theorem Covers.append {first second both : List String → Prop} {start middle finish : Int}
    (hstart : 0 ≤ start) (hfirst : Covers tokens first start middle)
    (hsecond : Covers tokens second middle finish)
    (h : ∀ before after, first before → second after → both (before ++ after)) :
    Covers tokens both start finish where
  start_le := Int.le_trans hfirst.start_le hsecond.start_le
  finish_le := hsecond.finish_le
  described := by
    rw [← slice_append hstart hfirst.start_le hsecond.start_le]
    exact h _ _ hfirst.described hsecond.described

omit [UnicodeData] in
/-- What is described may be described by more. -/
theorem Covers.mono {fewer more : List String → Prop} {start finish : Int}
    (hcovers : Covers tokens fewer start finish) (h : ∀ words, fewer words → more words) :
    Covers tokens more start finish :=
  ⟨hcovers.start_le, hcovers.finish_le, h _ hcovers.described⟩

omit [UnicodeData] in
/-- A demanded token that matches is covered. -/
theorem one_token_covers {symbol : Symbol} {accepts : String → Bool}
    {describes : List String → Prop}
    (hdescribes : ∀ token, accepts token = true → describes [token])
    {start finish : Int} (hstart : 0 ≤ start)
    (h : (oneToken tokens symbol accepts start).result = .ok (some finish)) :
    Covers tokens describes start finish := by
  obtain ⟨hlt, rfl, token, htoken, haccepts⟩ := one_token_eq_some h
  rw [tokenAt?, if_pos hstart] at htoken
  refine ⟨by omega, by omega, ?_⟩
  rw [slice_one htoken]
  exact hdescribes token haccepts

end Matching

section Soundness

variable {rules : String → Option Definition} {tokens : List String}
  {call : String → Int → Traced (Option Int)}

/-- Whatever a way to call rules consumes belongs to the rule. -/
def Matching.CallsSound (rules : String → Option Definition) (tokens : List String)
    (call : String → Int → Traced (Option Int)) : Prop :=
  ∀ name (start finish : Int), 0 ≤ start → start ≤ tokens.length →
    (call name start).result = .ok (some finish) →
    Matching.Covers tokens (Symbol.Derives rules (.reference name)) start finish

/-- Whatever a symbol consumes belongs to the symbol, with its modifier and without. -/
def Symbol.MatchesSound (rules : String → Option Definition) (tokens : List String)
    (call : String → Int → Traced (Option Int)) (symbol : Symbol) : Prop :=
  ∀ start finish : Int, 0 ≤ start → start ≤ tokens.length →
    ((Symbol.matchAt tokens call symbol start).result = .ok (some finish) →
      Matching.Covers tokens (symbol.Derives rules) start finish) ∧
    ((Symbol.matchModified tokens call symbol start).result = .ok (some finish) →
      Matching.Covers tokens (symbol.Derives rules) start finish)

/-- A production of sound symbols is sound. -/
theorem Production.match_covers {production : Production}
    (hsymbols : ∀ symbol ∈ production, symbol.MatchesSound rules tokens call) {start finish : Int}
    (hstart : 0 ≤ start) (hle : start ≤ tokens.length)
    (h : (Production.matchAt tokens call production start).result = .ok (some finish)) :
    Matching.Covers tokens (Production.Derives rules production) start finish := by
  induction production generalizing start with
  | nil =>
      cases h
      exact .stay hle .nil
  | cons symbol rest ih =>
      obtain ⟨middle, hfirst, hrest⟩ := Production.match_cons_eq_some h
      have hcovers := (hsymbols symbol List.mem_cons_self start middle hstart hle).2 hfirst
      have hmiddle : 0 ≤ middle := Int.le_trans hstart hcovers.start_le
      exact .append hstart hcovers
        (ih (fun s hs => hsymbols s (List.mem_cons_of_mem _ hs)) hmiddle hcovers.finish_le hrest)
        fun _ _ => .cons

/-- A definition of sound symbols is sound. -/
theorem Definition.match_covers {definition : Definition}
    (hsymbols : ∀ production ∈ definition, ∀ symbol ∈ production,
      symbol.MatchesSound rules tokens call)
    {start finish : Int} (hstart : 0 ≤ start) (hle : start ≤ tokens.length)
    (h : (Definition.matchAt tokens call definition start).result = .ok (some finish)) :
    Matching.Covers tokens (Definition.Derives rules definition) start finish := by
  obtain ⟨production, hmem, hmatch⟩ := Definition.match_eq_some h
  exact (Production.match_covers (hsymbols production hmem) hstart hle hmatch).mono
    fun _ => .intro hmem

/-- The laps of a repetition of a sound body are sound together. -/
theorem Symbol.advance_covers {body : Symbol} (hbody : body.MatchesSound rules tokens call)
    {start finish : Int} (hstart : 0 ≤ start) (hle : start ≤ tokens.length)
    (h : (Matching.advance (Symbol.matchAt tokens call body) tokens.length start).result =
      .ok finish) :
    Matching.Covers tokens (Symbol.Derives rules (.repeated body)) start finish := by
  refine Matching.advance_induction
    (motive := fun start finish => 0 ≤ start → start ≤ tokens.length →
      Matching.Covers tokens (Symbol.Derives rules (.repeated body)) start finish)
    (fun position _ hposition => .stay hposition (.none body)) ?_ h hstart hle
  intro first next last _ _ hlap ih hfirst hfirstle
  have hcovers := (hbody first next hfirst hfirstle).1 hlap
  exact .append hfirst hcovers (ih (Int.le_trans hfirst hcovers.start_le) hcovers.finish_le)
    fun _ _ => .more

/-- If the rules are called soundly, every symbol is sound. -/
theorem Symbol.matches_sound (hcall : Matching.CallsSound rules tokens call) (symbol : Symbol) :
    symbol.MatchesSound rules tokens call := by
  induction symbol using Symbol.induction with
  | terminal literal =>
      have haccepted : ∀ token, (token == literal) = true →
          Symbol.Derives rules (.terminal literal) [token] := by
        intro token htoken
        rw [eq_of_beq htoken]
        exact .terminal literal
      intro start finish hstart _
      exact ⟨Matching.one_token_covers haccepted hstart,
        Matching.one_token_covers haccepted hstart⟩
  | charClass pattern =>
      have haccepted : ∀ token, Matching.patternAccepts pattern token = true →
          Symbol.Derives rules (.charClass pattern) [token] := fun _ => .charClass
      intro start finish hstart _
      exact ⟨Matching.one_token_covers haccepted hstart,
        Matching.one_token_covers haccepted hstart⟩
  | reference name =>
      -- Here alone the rules are called; what they do is assumed.
      intro start finish hstart hle
      exact ⟨hcall name start finish hstart hle, hcall name start finish hstart hle⟩
  | unknown code =>
      intro start finish _ _
      exact ⟨(fun h => by cases h), (fun h => by cases h)⟩
  | group alternatives ih =>
      intro start finish hstart hle
      have hcovers : (Symbol.matchAt tokens call (.group alternatives) start).result =
          .ok (some finish) → Matching.Covers tokens (Symbol.Derives rules (.group alternatives))
            start finish :=
        fun h => (Definition.match_covers ih hstart hle h).mono fun _ => .group
      exact ⟨hcovers, hcovers⟩
  | optional body ih =>
      -- Without its modifier the symbol matches nothing, with it what its body does, or nothing.
      intro start finish hstart hle
      refine ⟨(fun h => by cases h), fun h => ?_⟩
      obtain ⟨next, hbody, hfinish⟩ := Symbol.match_optional_eq_ok h
      cases next with
      | none =>
          cases hfinish
          exact .stay hle (.omitted body)
      | some position =>
          cases hfinish
          exact ((ih start position hstart hle).1 hbody).mono fun _ => .present
  | repeated body ih =>
      intro start finish hstart hle
      refine ⟨(fun h => by cases h), fun h => ?_⟩
      obtain ⟨position, hfinish, hrun⟩ := Symbol.match_repeated_eq_ok h
      cases hfinish
      exact Symbol.advance_covers ih hstart hle hrun

/-- Rules are called soundly, however deep they may be nested. -/
theorem Matching.calls_sound (rules : String → Option Definition) (tokens : List String)
    (bound : Nat) : Matching.CallsSound rules tokens (Matching.call rules tokens bound) := by
  -- The induction is on the bound: what is called inside of a rule has one level less.
  induction bound with
  | zero =>
      intro name start finish _ _ h
      obtain ⟨_, _, _, hbound, _⟩ := Matching.call_eq_some h
      cases hbound
  | succ bound ih =>
      intro name start finish hstart hle h
      obtain ⟨definition, less, hrule, hbound, hmatch⟩ := Matching.call_eq_some h
      cases hbound
      have hsymbols : ∀ production ∈ definition, ∀ symbol ∈ production,
          symbol.MatchesSound rules tokens (Matching.call rules tokens bound) :=
        fun _ _ symbol _ => Symbol.matches_sound ih symbol
      exact (Definition.match_covers hsymbols hstart hle hmatch).mono fun _ => .reference hrule

end Soundness

namespace Grammar

/-- Whatever the matcher consumes belongs to what it matches: to the rule that it calls, to the
definition, the production or the symbol. It never runs backward or beyond the tokens. In
particular all words of a valid sentence together belong to the rule. -/
theorem matching_sound (grammar : Grammar) (tokens : List String) :
    (∀ (name : String) (start finish : Int), 0 ≤ start → start ≤ tokens.length →
      (grammar.call tokens name start).result = .ok (some finish) →
      Matching.Covers tokens (Symbol.Derives grammar.definition? (.reference name))
        start finish) ∧
    (∀ (definition : Definition) (start finish : Int), 0 ≤ start → start ≤ tokens.length →
      (Definition.matchAt tokens (grammar.call tokens) definition start).result =
        .ok (some finish) →
      Matching.Covers tokens (Definition.Derives grammar.definition? definition) start finish) ∧
    (∀ (production : Production) (start finish : Int), 0 ≤ start → start ≤ tokens.length →
      (Production.matchAt tokens (grammar.call tokens) production start).result =
        .ok (some finish) →
      Matching.Covers tokens (Production.Derives grammar.definition? production) start finish) ∧
    (∀ (symbol : Symbol) (start finish : Int), 0 ≤ start → start ≤ tokens.length →
      (Symbol.matchAt tokens (grammar.call tokens) symbol start).result = .ok (some finish) →
      Matching.Covers tokens (Symbol.Derives grammar.definition? symbol) start finish) ∧
    ∀ sentence name, (grammar.validate sentence name).1.result = .ok true →
      Symbol.Derives grammar.definition? (.reference name) (words sentence) := by
  have hcall (tokens : List String) :
      Matching.CallsSound grammar.definition? tokens (grammar.call tokens) :=
    fun name start finish => Matching.calls_sound grammar.definition? tokens _ name start finish
  have hsymbol (symbol : Symbol) :
      symbol.MatchesSound grammar.definition? tokens (grammar.call tokens) :=
    Symbol.matches_sound (hcall tokens) symbol
  refine ⟨hcall tokens, ?_, ?_, ?_, ?_⟩
  · intro definition start finish hstart hle h
    exact Definition.match_covers (fun _ _ symbol _ => hsymbol symbol) hstart hle h
  · intro production start finish hstart hle h
    exact Production.match_covers (fun symbol _ => hsymbol symbol) hstart hle h
  · intro symbol start finish hstart hle h
    exact (hsymbol symbol start finish hstart hle).1 h
  · intro sentence name h
    rw [verdict_eq] at h
    split at h
    · split at h
      · cases h
      · obtain ⟨finish, hrun, hwhole⟩ := Traced.result_bind_eq_ok.1 h
        have hfinish : finish = some ((words sentence).length : Int) :=
          eq_of_beq (Except.ok.inj hwhole)
        rw [hfinish] at hrun
        have hcovers := hcall (words sentence) name 0 _ (Int.le_refl 0) (by omega) hrun
        rw [← Matching.slice_all (words sentence)]
        exact hcovers.described
    · cases h

end Grammar

end Bnf

namespace Bnf.Grammar

/-- A grammar of greetings, with a repeated rule and an optional group. -/
def greetings : Grammar :=
  ofSources [("greeting", "\"hello\" <name>* ( \"again\" )?"), ("name", "\"you\" | \"world\"")]

/-- A rule that is matched inside of a sentence, and a whole sentence. -/
theorem matching_sound_greetings :
    ((greetings.call ["hello", "you", "world"] "name" 1).result = .ok (some 2) ∧
      Matching.Covers ["hello", "you", "world"]
        (Symbol.Derives greetings.definition? (.reference "name")) 1 2) ∧
    (greetings.validate "hello you world" "greeting").1.result = .ok true ∧
      Symbol.Derives greetings.definition? (.reference "greeting") (words "hello you world") := by
  have hname : (greetings.call ["hello", "you", "world"] "name" 1).result = .ok (some 2) := by cbv
  have hgreeting : (greetings.validate "hello you world" "greeting").1.result = .ok true := by cbv
  have hsound := matching_sound greetings ["hello", "you", "world"]
  exact ⟨⟨hname, hsound.1 "name" 1 2 (by decide) (by decide) hname⟩,
    hgreeting, hsound.2.2.2.2 "hello you world" "greeting" hgreeting⟩

end Bnf.Grammar
