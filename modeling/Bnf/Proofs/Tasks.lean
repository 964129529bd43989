import Bnf.Proofs.Calls
import Mathlib.Logic.Relation

/-!
# The tasks of a run

Matching a definition is a task that begins other tasks, one inside of the other: its productions,
their symbols with their modifiers, and what is repeated. `Matching.Begins` says which task begins
which one as long as no rule is called, and `Matching.Enters` goes on into the definitions of rules,
with one level of nesting less. Tasks are begun further and further on (`Matching.start_le`), and a
task refers to all that is referred to inside of it (`Matching.Begins.references_subset`).
-/

namespace Bnf.Matching

variable [UnicodeData]

/-- What the matcher does from a position: it matches a definition, a production, a symbol with its
modifier or a symbol without, or it repeats the body of a symbol. -/
inductive Task where
  | definition (definition : Definition) (start : Int)
  | production (production : Production) (start : Int)
  | modified (symbol : Symbol) (start : Int)
  | symbol (symbol : Symbol) (start : Int)
  | repetition (body : Symbol) (start : Int)

/-- The position that a task is begun at. -/
def Task.start : Task → Int
  | .definition _ start | .production _ start | .modified _ start | .symbol _ start
  | .repetition _ start => start

/-- The names that a task refers to. -/
def Task.references : Task → List String
  | .definition alternatives _ => Definition.references alternatives
  | .production symbols _ => Production.references symbols
  | .modified body _ | .symbol body _ | .repetition body _ => body.references

/-- A task begins another one, as its next part or as all that is left of it. -/
inductive Begins (tokens : List String) (call : String → Int → Traced (Option Int)) :
    Task → Task → Prop where
  | production {production : Production} {rest : Definition} {start : Int} :
      Begins tokens call (.definition (production :: rest) start) (.production production start)
  | alternative {production : Production} {rest : Definition} {start : Int}
      (h : (Production.matchAt tokens call production start).result = .ok none) :
      Begins tokens call (.definition (production :: rest) start) (.definition rest start)
  | modified {symbol : Symbol} {rest : Production} {start : Int} :
      Begins tokens call (.production (symbol :: rest) start) (.modified symbol start)
  | further {symbol : Symbol} {rest : Production} {start middle : Int}
      (h : (Symbol.matchModified tokens call symbol start).result = .ok (some middle)) :
      Begins tokens call (.production (symbol :: rest) start) (.production rest middle)
  | optional {body : Symbol} {start : Int} :
      Begins tokens call (.modified (.optional body) start) (.symbol body start)
  | repeated {body : Symbol} {start : Int} :
      Begins tokens call (.modified (.repeated body) start) (.repetition body start)
  | plain {symbol : Symbol} {start : Int} (hoptional : ∀ body, symbol ≠ .optional body)
      (hrepeated : ∀ body, symbol ≠ .repeated body) :
      Begins tokens call (.modified symbol start) (.symbol symbol start)
  | lap {body : Symbol} {start : Int} (h : start < tokens.length) :
      Begins tokens call (.repetition body start) (.symbol body start)
  | again {body : Symbol} {start next : Int} (h : start < tokens.length)
      (hlap : (Symbol.matchAt tokens call body start).result = .ok (some next))
      (hnext : next ≠ start) :
      Begins tokens call (.repetition body start) (.repetition body next)
  | group {alternatives : Definition} {start : Int} :
      Begins tokens call (.symbol (.group alternatives) start) (.definition alternatives start)

/-- A task begins another one, or the definition of the rule that it calls, with one level of
nesting less. -/
inductive Enters (rules : String → Option Definition) (tokens : List String) :
    Nat × Task → Nat × Task → Prop where
  | within {bound : Nat} {task inner : Task}
      (h : Begins tokens (Matching.call rules tokens bound) task inner) :
      Enters rules tokens (bound, task) (bound, inner)
  | rule {bound : Nat} {name : String} {definition : Definition} {start : Int}
      (hrule : rules name = some definition) :
      Enters rules tokens (bound + 1, .symbol (.reference name) start)
        (bound, .definition definition start)

variable {rules : String → Option Definition} {tokens : List String}
  {call : String → Int → Traced (Option Int)}

/-- No task is begun before the one that it is part of. -/
theorem Begins.start_le (hcall : ∀ name, Forward (call name)) {task inner : Task}
    (h : Begins tokens call task inner) : task.start ≤ inner.start := by
  cases h with
  | further h => exact (Symbol.match_forward hcall _).2 _ _ h
  | again _ hlap _ => exact (Symbol.match_forward hcall _).1 _ _ hlap
  | _ => exact Int.le_refl _

/-- No task of a run is begun before the task that the run begins with. -/
theorem start_le {first last : Nat × Task}
    (h : Relation.ReflTransGen (Enters rules tokens) first last) :
    first.2.start ≤ last.2.start := by
  induction h with
  | refl => exact Int.le_refl _
  | tail _ hlast ih =>
      refine Int.le_trans ih ?_
      cases hlast with
      | within h => exact h.start_le (call_forward rules _)
      | rule _ => exact Int.le_refl _

/-- A task refers to all that the tasks refer to which it begins. -/
theorem Begins.references_subset {task inner : Task} (h : Begins tokens call task inner) :
    inner.references ⊆ task.references := by
  cases h with
  | production => exact List.subset_append_left _ _
  | alternative _ => exact List.subset_append_right _ _
  | modified => exact List.subset_append_left _ _
  | further _ => exact List.subset_append_right _ _
  | _ => exact List.Subset.refl _

/-- A task refers to all that is referred to inside of it, as long as no rule is entered. -/
theorem references_subset {task inner : Task}
    (h : Relation.ReflTransGen (Begins tokens call) task inner) :
    inner.references ⊆ task.references := by
  induction h with
  | refl => exact List.Subset.refl _
  | tail _ hlast ih => exact List.Subset.trans hlast.references_subset ih

end Bnf.Matching
