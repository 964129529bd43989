import Bnf.Definition.Basic

/-!
# The rules that a definition refers to

References are listed from left to right and with repetitions, also those inside of groups and
below modifiers.
-/

namespace Bnf

mutual
/-- The names that a symbol refers to. -/
def Symbol.references : Symbol → List String
  | .reference name => [name]
  | .group alternatives => Definition.references alternatives
  | .optional body => body.references
  | .repeated body => body.references
  | .terminal _ | .charClass _ | .unknown _ => []
termination_by structural s => s

/-- The names that a production refers to. -/
def Production.references : List Symbol → List String
  | [] => []
  | symbol :: rest => symbol.references ++ Production.references rest
termination_by structural p => p

/-- The names that a definition refers to. -/
def Definition.references : List (List Symbol) → List String
  | [] => []
  | production :: rest => Production.references production ++ Definition.references rest
termination_by structural d => d
end

theorem Production.references_eq_flatMap (production : Production) :
    Production.references production = production.flatMap Symbol.references := by
  induction production with
  | nil => rfl
  | cons symbol rest ih => simp [Production.references, ih]

theorem Definition.references_eq_flatMap (definition : Definition) :
    Definition.references definition = definition.flatMap Production.references := by
  induction definition with
  | nil => rfl
  | cons production rest ih => simp [Definition.references, ih]

/-- A definition refers to all that its symbols refer to. -/
theorem Definition.mem_references {definition : Definition} {production : Production}
    {symbol : Symbol} {name : String} (hproduction : production ∈ definition)
    (hsymbol : symbol ∈ production) (hname : name ∈ symbol.references) :
    name ∈ Definition.references definition := by
  rw [Definition.references_eq_flatMap]
  refine List.mem_flatMap.2 ⟨production, hproduction, ?_⟩
  rw [Production.references_eq_flatMap]
  exact List.mem_flatMap.2 ⟨symbol, hsymbol, hname⟩

end Bnf
