import Bnf.Proofs.UsableRules
import Bnf.UnicodeData.Version14
import Mathlib

/-!
# Matching from another position

Matching does not know where it stands. What counts is what is seen from the start: the tokens from
there on, and from a start that is counted from the end these and after them all tokens once more,
since a match runs across the end to the first token. `Aligned` says that two token lists look alike
from two positions, and `Moved` that two runs end alike but for the distance of these positions. It
is carried from tokens to symbols, productions and definitions, and from there to the names that
are free of recursion. `position_independent` is this for every start at which there is a token or
the end of the tokens.
-/

namespace Bnf

namespace Matching

/-- What a match from a start sees: the tokens from there on, and behind the end all tokens again if
the start is counted from the end. -/
def seenFrom (tokens : List String) (start : Int) : List String :=
  if 0 ≤ start then tokens.drop start.toNat
  else tokens.drop (tokens.length + start).toNat ++ tokens

/-- What one run ends in, and what a run in another place ends in: a finish by an amount further on,
no match if there was none, and the same fault if a rule is not defined. There is no other fault. -/
inductive Moved (rules : String → Option Definition) (amount : Int) :
    Except Fault (Option Int) → Except Fault (Option Int) → Prop where
  | finish {finish : Int} (h : 0 ≤ finish) :
      Moved rules amount (.ok (some finish)) (.ok (some (amount + finish)))
  | noMatch : Moved rules amount (.ok none) (.ok none)
  | undefined {name : String} (h : rules name = none) :
      Moved rules amount (.error (.undefinedRule name)) (.error (.undefinedRule name))

/-- From the start on, the second list of tokens looks like the first one an amount further on. -/
structure Aligned (amount : Int) (tokens seen : List String) : Prop where
  inside : ∀ position : Int, 0 ≤ position →
    (amount + position < tokens.length ↔ position < seen.length)
  token : ∀ position : Int, 0 ≤ position → position < seen.length →
    tokenAt? tokens (amount + position) = tokenAt? seen position

/-- What is seen from a start is aligned with the tokens, if the start is not before the first
token. -/
theorem aligned_seenFrom {tokens : List String} {start : Int}
    (hstart : -(tokens.length : Int) ≤ start) : Aligned start tokens (seenFrom tokens start) := by
  unfold seenFrom
  by_cases hfront : 0 ≤ start
  · rw [if_pos hfront]
    refine ⟨fun position hposition => ?_, fun position hposition _ => ?_⟩
    · rw [List.length_drop]
      omega
    · have hindex : (start + position).toNat = start.toNat + position.toNat := by omega
      rw [tokenAt?, tokenAt?, if_pos (by omega), if_pos hposition, List.getElem?_drop, hindex]
  · rw [if_neg hfront]
    refine ⟨fun position hposition => ?_, fun position hposition _ => ?_⟩
    · rw [List.length_append, List.length_drop]
      omega
    · -- A position still counts from the end, or has come across it to the first token.
      rw [tokenAt?, tokenAt?, if_pos hposition]
      by_cases hend : start + position < 0
      · have hleft : position.toNat < (tokens.drop (tokens.length + start).toNat).length := by
          rw [List.length_drop]
          omega
        have hindex : ((tokens.length : Int) + (start + position)).toNat =
            (tokens.length + start).toNat + position.toNat := by omega
        rw [if_neg (by omega), if_pos (by omega), List.getElem?_append_left hleft,
          List.getElem?_drop, hindex]
      · have hright : (tokens.drop (tokens.length + start).toNat).length ≤ position.toNat := by
          rw [List.length_drop]
          omega
        have hindex : position.toNat - (tokens.drop (tokens.length + start).toNat).length =
            (start + position).toNat := by
          rw [List.length_drop]
          omega
        rw [if_pos (by omega), List.getElem?_append_right hright, hindex]

/-! ## Runs that end alike -/

variable {rules : String → Option Definition} {amount : Int}

/-- What a run ends in determines what it ends in after a move. -/
theorem Moved.unique {ended moved other : Except Fault (Option Int)}
    (h : Moved rules amount ended moved) (hother : Moved rules amount ended other) :
    moved = other := by
  cases h <;> cases hother <;> rfl

/-- Runs that end alike may be continued by runs that end alike. -/
theorem Moved.bind {run further : Traced (Option Int)}
    {next later : Option Int → Traced (Option Int)}
    (h : Moved rules amount run.result further.result)
    (hnone : Moved rules amount (next none).result (later none).result)
    (hsome : ∀ finish : Int, 0 ≤ finish →
      Moved rules amount (next (some finish)).result (later (some (amount + finish))).result) :
    Moved rules amount (run >>= next).result (further >>= later).result := by
  rw [Traced.result_bind, Traced.result_bind]
  generalize run.result = ended at h ⊢
  generalize further.result = moved at h ⊢
  cases h with
  | finish hfinish => exact hsome _ hfinish
  | noMatch => exact hnone
  | undefined hname => exact .undefined hname

/-- A way to match and another one an amount further on end alike from every position. -/
def MovesBy (rules : String → Option Definition) (amount : Int)
    (match? further : Int → Traced (Option Int)) : Prop :=
  ∀ position : Int, 0 ≤ position →
    Moved rules amount (match? position).result (further (amount + position)).result

/-- What is matched alike from every position is matched alike from the first one. -/
theorem MovesBy.from_zero {match? further : Int → Traced (Option Int)}
    (h : MovesBy rules amount match? further) :
    Moved rules amount (match? 0).result (further amount).result := by
  simpa using h 0 (Int.le_refl 0)

variable {tokens seen : List String}

/-- A demanded token is found or missed alike where the tokens look alike. -/
theorem Aligned.one_token (haligned : Aligned amount tokens seen) (symbol : Symbol)
    (accepts : String → Bool) :
    MovesBy rules amount (oneToken seen symbol accepts) (oneToken tokens symbol accepts) := by
  intro position hposition
  rw [result_one_token, result_one_token]
  by_cases hinside : position < seen.length
  · have hlength : position.toNat < seen.length := by omega
    have htoken : tokenAt? seen position = some seen[position.toNat] := by
      rw [tokenAt?, if_pos hposition, List.getElem?_eq_getElem hlength]
    rw [if_pos hinside, if_pos ((haligned.inside position hposition).2 hinside),
      haligned.token position hposition hinside, htoken]
    show Moved rules amount (.ok (if accepts _ then _ else _)) (.ok (if accepts _ then _ else _))
    split
    · rw [Int.add_assoc]
      exact .finish (by omega)
    · exact .noMatch
  · rw [if_neg hinside, if_neg (mt (haligned.inside position hposition).1 hinside)]
    exact .noMatch

/-- A repetition takes the same laps where its steps end alike. -/
theorem Aligned.advance (haligned : Aligned amount tokens seen)
    {step further : Int → Traced (Option Int)} (h : MovesBy rules amount step further) :
    MovesBy rules amount (fun position => some <$> Matching.advance step seen.length position)
      (fun position => some <$> Matching.advance further tokens.length position) := by
  intro position hposition
  have hstill : Moved rules amount (.ok (some position)) (.ok (some (amount + position))) :=
    .finish hposition
  show Moved rules amount (some <$> Matching.advance step seen.length position).result
    (some <$> Matching.advance further tokens.length (amount + position)).result
  rw [Matching.advance, Matching.advance]
  by_cases hinside : position < seen.length
  · rw [dif_pos hinside, dif_pos ((haligned.inside position hposition).2 hinside), map_bind,
      map_bind]
    refine (h position hposition).bind hstill fun next hnext => ?_
    by_cases hlap : position < next
    · have hlapMoved : amount + position < amount + next := by omega
      simp only [hlap, hlapMoved, dite_true]
      exact haligned.advance h next hnext
    · have hlapMoved : ¬ amount + position < amount + next := by omega
      simp only [hlap, hlapMoved, dite_false]
      exact hstill
  · rw [dif_neg hinside, dif_neg (mt (haligned.inside position hposition).1 hinside)]
    exact hstill
termination_by position => (seen.length - position).toNat

end Matching

variable [UnicodeData]

section Moving

variable {rules : String → Option Definition} {amount : Int} {tokens seen : List String}
  {call further : String → Int → Traced (Option Int)}

/-- A symbol is matched alike an amount further on, with its modifier and without. -/
def Symbol.MatchMoves (rules : String → Option Definition) (amount : Int)
    (tokens seen : List String) (call further : String → Int → Traced (Option Int))
    (symbol : Symbol) : Prop :=
  Matching.MovesBy rules amount (Symbol.matchAt seen call symbol)
      (Symbol.matchAt tokens further symbol) ∧
    Matching.MovesBy rules amount (Symbol.matchModified seen call symbol)
      (Symbol.matchModified tokens further symbol)

/-- A production is matched alike if its symbols are. -/
theorem Production.match_moves {production : Production}
    (hsymbols : ∀ symbol ∈ production, symbol.MatchMoves rules amount tokens seen call further) :
    Matching.MovesBy rules amount (Production.matchAt seen call production)
      (Production.matchAt tokens further production) := by
  intro position hposition
  induction production generalizing position with
  | nil => exact .finish hposition
  | cons symbol rest ih =>
      rw [Production.matchAt_cons, Production.matchAt_cons]
      refine ((hsymbols symbol List.mem_cons_self).2 position hposition).bind .noMatch ?_
      intro middle hmiddle
      exact ih (fun s hs => hsymbols s (List.mem_cons_of_mem symbol hs)) middle hmiddle

/-- A definition is matched alike if its symbols are. -/
theorem Definition.match_moves {definition : Definition}
    (hsymbols : ∀ production ∈ definition, ∀ symbol ∈ production,
      symbol.MatchMoves rules amount tokens seen call further) :
    Matching.MovesBy rules amount (Definition.matchAt seen call definition)
      (Definition.matchAt tokens further definition) := by
  intro position hposition
  induction definition with
  | nil => exact .noMatch
  | cons production rest ih =>
      rw [Definition.matchAt, Definition.matchAt]
      refine (Production.match_moves (hsymbols production List.mem_cons_self) position
        hposition).bind ?_ fun finish hfinish => .finish hfinish
      exact ih fun later hlater => hsymbols later (List.mem_cons_of_mem production hlater)

/-- A symbol is matched alike if what it refers to is. -/
theorem Symbol.match_moves (haligned : Matching.Aligned amount tokens seen) {symbol : Symbol}
    (hcall : ∀ name ∈ symbol.references, Matching.MovesBy rules amount (call name) (further name)) :
    symbol.MatchMoves rules amount tokens seen call further := by
  induction symbol using Symbol.induction with
  | terminal literal => exact ⟨haligned.one_token _ _, haligned.one_token _ _⟩
  | charClass pattern => exact ⟨haligned.one_token _ _, haligned.one_token _ _⟩
  | unknown code => exact ⟨fun _ _ => .noMatch, fun _ _ => .noMatch⟩
  | reference name =>
      have hname := hcall name (List.mem_singleton_self name)
      exact ⟨hname, hname⟩
  | group alternatives ih =>
      have hgroup : Matching.MovesBy rules amount (Definition.matchAt seen call alternatives)
          (Definition.matchAt tokens further alternatives) :=
        Definition.match_moves fun production hproduction symbol hsymbol =>
          ih production hproduction symbol hsymbol fun name hname =>
            hcall name (Definition.mem_references hproduction hsymbol hname)
      exact ⟨hgroup, hgroup⟩
  | optional body ih =>
      refine ⟨fun _ _ => .noMatch, fun position hposition => ?_⟩
      rw [Symbol.matchModified, Symbol.matchModified, ← bind_pure_comp, ← bind_pure_comp]
      exact ((ih hcall).1 position hposition).bind (.finish hposition) fun _ => .finish
  | repeated body ih => exact ⟨fun _ _ => .noMatch, haligned.advance (ih hcall).1⟩

end Moving

namespace Grammar

variable {grammar : Grammar} {amount : Int} {tokens seen : List String}

/-- A name that is free of recursion is matched alike where the tokens look alike. -/
theorem call_moves (haligned : Matching.Aligned amount tokens seen) {name : String}
    (h : grammar.FreeOfRecursion name) :
    Matching.MovesBy grammar.definition? amount (grammar.call seen name)
      (grammar.call tokens name) := by
  refine free_induction (motive := fun name => Matching.MovesBy grammar.definition? amount
    (grammar.call seen name) (grammar.call tokens name)) (fun name hfree ih => ?_) h
  intro position hposition
  cases hdefinition : grammar.definition? name with
  | none =>
      unfold call
      rw [Matching.call_of_undefined hdefinition, Matching.call_of_undefined hdefinition]
      exact .undefined hdefinition
  | some definition =>
      rw [result_call hfree hdefinition, result_call hfree hdefinition]
      refine Definition.match_moves ?_ position hposition
      intro production hproduction symbol hsymbol
      refine Symbol.match_moves haligned fun reference hreference => ih reference ?_
      exact refers_of_definition hdefinition
        (Definition.mem_references hproduction hsymbol hreference)

/-- A symbol that refers to names free of recursion only is matched alike where the tokens look
alike. -/
theorem symbol_moves (haligned : Matching.Aligned amount tokens seen) {symbol : Symbol}
    (h : ∀ name ∈ symbol.references, grammar.FreeOfRecursion name) :
    symbol.MatchMoves grammar.definition? amount tokens seen (grammar.call seen)
      (grammar.call tokens) :=
  Symbol.match_moves haligned fun name hname => call_moves haligned (h name hname)

theorem production_moves (haligned : Matching.Aligned amount tokens seen) {production : Production}
    (h : ∀ name ∈ Production.references production, grammar.FreeOfRecursion name) :
    Matching.MovesBy grammar.definition? amount
      (Production.matchAt seen (grammar.call seen) production)
      (Production.matchAt tokens (grammar.call tokens) production) := by
  refine Production.match_moves fun symbol hsymbol => ?_
  refine symbol_moves haligned fun name hname => h name ?_
  rw [Production.references_eq_flatMap]
  exact List.mem_flatMap.2 ⟨symbol, hsymbol, hname⟩

theorem definition_moves (haligned : Matching.Aligned amount tokens seen) {definition : Definition}
    (h : ∀ name ∈ Definition.references definition, grammar.FreeOfRecursion name) :
    Matching.MovesBy grammar.definition? amount
      (Definition.matchAt seen (grammar.call seen) definition)
      (Definition.matchAt tokens (grammar.call tokens) definition) :=
  Definition.match_moves fun _ hproduction _ hsymbol => symbol_moves haligned fun name hname =>
    h name (Definition.mem_references hproduction hsymbol hname)

/-- From every start that is not before the first token, a match ends as it does from the beginning
of what is seen from the start, with its finish moved by the start: this is true of names that are
free of recursion, and of definitions, productions and symbols that refer to such names only. The
only fault is that of an undefined rule, and the same one in both places. So of the tokens before a
start that is counted from the front nothing is known: whatever they are, the match ends alike. -/
theorem position_independent (grammar : Grammar) (tokens : List String) {start : Int}
    (hstart : -(tokens.length : Int) ≤ start) :
    let seen := Matching.seenFrom tokens start
    let Moved := Matching.Moved grammar.definition? start
    (∀ name, grammar.FreeOfRecursion name →
      Moved (grammar.call seen name 0).result (grammar.call tokens name start).result) ∧
    (∀ definition : Definition,
      (∀ name ∈ Definition.references definition, grammar.FreeOfRecursion name) →
      Moved (Definition.matchAt seen (grammar.call seen) definition 0).result
        (Definition.matchAt tokens (grammar.call tokens) definition start).result) ∧
    (∀ production : Production,
      (∀ name ∈ Production.references production, grammar.FreeOfRecursion name) →
      Moved (Production.matchAt seen (grammar.call seen) production 0).result
        (Production.matchAt tokens (grammar.call tokens) production start).result) ∧
    (∀ symbol : Symbol, (∀ name ∈ symbol.references, grammar.FreeOfRecursion name) →
      Moved (Symbol.matchAt seen (grammar.call seen) symbol 0).result
        (Symbol.matchAt tokens (grammar.call tokens) symbol start).result) ∧
    (0 ≤ start → ∀ other : List String, other.drop start.toNat = tokens.drop start.toNat →
      (∀ name, grammar.FreeOfRecursion name →
        (grammar.call other name start).result = (grammar.call tokens name start).result) ∧
      (∀ definition : Definition,
        (∀ name ∈ Definition.references definition, grammar.FreeOfRecursion name) →
        (Definition.matchAt other (grammar.call other) definition start).result =
          (Definition.matchAt tokens (grammar.call tokens) definition start).result) ∧
      (∀ production : Production,
        (∀ name ∈ Production.references production, grammar.FreeOfRecursion name) →
        (Production.matchAt other (grammar.call other) production start).result =
          (Production.matchAt tokens (grammar.call tokens) production start).result) ∧
      ∀ symbol : Symbol, (∀ name ∈ symbol.references, grammar.FreeOfRecursion name) →
        (Symbol.matchAt other (grammar.call other) symbol start).result =
          (Symbol.matchAt tokens (grammar.call tokens) symbol start).result) := by
  intro seen Moved
  have haligned : Matching.Aligned start tokens seen := Matching.aligned_seenFrom hstart
  refine ⟨fun name h => (call_moves haligned h).from_zero,
    fun definition h => (definition_moves haligned h).from_zero,
    fun production h => (production_moves haligned h).from_zero,
    fun symbol h => (symbol_moves haligned h).1.from_zero, fun hfront other hdrop => ?_⟩
  -- From the front on, what is seen of the other tokens is what is seen of these.
  have hseen : Matching.seenFrom other start = seen := by
    show (if 0 ≤ start then _ else _) = (if 0 ≤ start then _ else _)
    rw [if_pos hfront, if_pos hfront, hdrop]
  have hother : Matching.Aligned start other seen := by
    rw [← hseen]
    exact Matching.aligned_seenFrom (by omega)
  exact ⟨fun name h =>
      (call_moves hother h).from_zero.unique (call_moves haligned h).from_zero,
    fun definition h =>
      (definition_moves hother h).from_zero.unique (definition_moves haligned h).from_zero,
    fun production h =>
      (production_moves hother h).from_zero.unique (production_moves haligned h).from_zero,
    fun symbol h =>
      (symbol_moves hother h).1.from_zero.unique (symbol_moves haligned h).1.from_zero⟩

end Grammar

end Bnf

namespace Bnf.Grammar

/-- Two tokens in a row, the second of which may come from a rule that is missing. -/
def pairs : Grammar :=
  ofSources [("pair", "\"b\" <first>"), ("first", "\"a\" | <missing>")]

/-- A match that begins at the last token goes on with the first one, and finishes behind it. -/
theorem position_independent_across_end :
    pairs.FreeOfRecursion "pair" ∧ -(["a", "b"].length : Int) ≤ -1 ∧
    Matching.seenFrom ["a", "b"] (-1) = ["b", "a", "b"] ∧
    (pairs.call ["b", "a", "b"] "pair" 0).result = .ok (some 2) ∧
    (pairs.call ["a", "b"] "pair" (-1)).result = .ok (some 1) := by
  have hstart : -(["a", "b"].length : Int) ≤ -1 := by decide
  have hfree : pairs.FreeOfRecursion "pair" :=
    free_of_cycleFrom (knows_invariant.ofSources _) (by cbv)
  have hrun : (pairs.call ["b", "a", "b"] "pair" 0).result = .ok (some 2) := by cbv
  refine ⟨hfree, hstart, rfl, hrun, ?_⟩
  have hmoved := (position_independent pairs ["a", "b"] hstart).1 "pair" hfree
  rw [show Matching.seenFrom ["a", "b"] (-1) = ["b", "a", "b"] from rfl, hrun] at hmoved
  exact hmoved.unique (.finish (by decide))

end Bnf.Grammar
