/-!
# Definitions

The definition of a rule is an ordered list of alternatives, called productions, and a production
is a sequence of symbols. A symbol demands a token, refers to another rule, groups a definition of
its own, or modifies a symbol. A text that is none of these is kept as an unknown symbol.
-/

namespace Bnf

/-- A symbol of a production. -/
inductive Symbol where
  /-- One token that equals the literal. -/
  | terminal (literal : String)
  /-- Whatever the named rule matches. -/
  | reference (name : String)
  /-- One token that consists of a single character of a bracketed set, brackets included. -/
  | charClass (pattern : String)
  /-- A text that is no symbol, and matches nothing. -/
  | unknown (code : String)
  /-- Whatever the definition in parentheses matches. -/
  | group (alternatives : List (List Symbol))
  /-- The symbol or nothing. -/
  | optional (body : Symbol)
  /-- The symbol any number of times. -/
  | repeated (body : Symbol)
  deriving Repr, Inhabited

/-- A sequence of symbols, all of which have to match one after the other. -/
abbrev Production := List Symbol

/-- Alternative productions, of which the first that matches counts. -/
abbrev Definition := List Production

mutual
/-- Decides whether two symbols are equal, constructor by constructor. -/
def Symbol.decideEq (s t : Symbol) : Decidable (s = t) :=
  match s with
  | .terminal a => match t with
    | .terminal b => decidable_of_iff (a = b) (by simp)
    | .reference _ | .charClass _ | .unknown _ | .group _ | .optional _ | .repeated _ =>
      isFalse (by simp)
  | .reference a => match t with
    | .reference b => decidable_of_iff (a = b) (by simp)
    | .terminal _ | .charClass _ | .unknown _ | .group _ | .optional _ | .repeated _ =>
      isFalse (by simp)
  | .charClass a => match t with
    | .charClass b => decidable_of_iff (a = b) (by simp)
    | .terminal _ | .reference _ | .unknown _ | .group _ | .optional _ | .repeated _ =>
      isFalse (by simp)
  | .unknown a => match t with
    | .unknown b => decidable_of_iff (a = b) (by simp)
    | .terminal _ | .reference _ | .charClass _ | .group _ | .optional _ | .repeated _ =>
      isFalse (by simp)
  | .group a => match t with
    | .group b =>
      have := Definition.decideEq a b
      decidable_of_iff (a = b) (by simp)
    | .terminal _ | .reference _ | .charClass _ | .unknown _ | .optional _ | .repeated _ =>
      isFalse (by simp)
  | .optional a => match t with
    | .optional b =>
      have := Symbol.decideEq a b
      decidable_of_iff (a = b) (by simp)
    | .terminal _ | .reference _ | .charClass _ | .unknown _ | .group _ | .repeated _ =>
      isFalse (by simp)
  | .repeated a => match t with
    | .repeated b =>
      have := Symbol.decideEq a b
      decidable_of_iff (a = b) (by simp)
    | .terminal _ | .reference _ | .charClass _ | .unknown _ | .group _ | .optional _ =>
      isFalse (by simp)
termination_by structural s

/-- Decides whether two productions are equal, symbol by symbol. -/
def Production.decideEq (p q : List Symbol) : Decidable (p = q) :=
  match p with
  | [] => match q with
    | [] => isTrue rfl
    | _ :: _ => isFalse (by simp)
  | s :: p => match q with
    | [] => isFalse (by simp)
    | t :: q =>
      have := Symbol.decideEq s t
      have := Production.decideEq p q
      decidable_of_iff (s = t ∧ p = q) (by simp)
termination_by structural p

/-- Decides whether two definitions are equal, production by production. -/
def Definition.decideEq (d e : List (List Symbol)) : Decidable (d = e) :=
  match d with
  | [] => match e with
    | [] => isTrue rfl
    | _ :: _ => isFalse (by simp)
  | p :: d => match e with
    | [] => isFalse (by simp)
    | q :: e =>
      have := Production.decideEq p q
      have := Definition.decideEq d e
      decidable_of_iff (p = q ∧ d = e) (by simp)
termination_by structural d
end

instance : DecidableEq Symbol := Symbol.decideEq

/-- Induction over a symbol: a property is carried from all symbols of a group to the group, and
from the body of a modified symbol to that symbol. -/
theorem Symbol.induction {motive : Symbol → Prop}
    (terminal : ∀ literal, motive (.terminal literal))
    (reference : ∀ name, motive (.reference name))
    (charClass : ∀ pattern, motive (.charClass pattern))
    (unknown : ∀ code, motive (.unknown code))
    (group : ∀ alternatives : Definition,
      (∀ production ∈ alternatives, ∀ symbol ∈ production, motive symbol) →
      motive (.group alternatives))
    (optional : ∀ body, motive body → motive (.optional body))
    (repeated : ∀ body, motive body → motive (.repeated body)) (symbol : Symbol) :
    motive symbol :=
  @Symbol.rec motive
    (fun definition => ∀ production ∈ definition, ∀ symbol ∈ production, motive symbol)
    (fun production => ∀ symbol ∈ production, motive symbol)
    terminal reference charClass unknown group optional repeated
    (List.forall_mem_nil _)
    (fun _ _ hfirst hrest => List.forall_mem_cons.2 ⟨hfirst, hrest⟩)
    (List.forall_mem_nil _)
    (fun _ _ hfirst hrest => List.forall_mem_cons.2 ⟨hfirst, hrest⟩) symbol

end Bnf
