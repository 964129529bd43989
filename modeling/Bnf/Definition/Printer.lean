import Bnf.Definition.Basic
import Bnf.Text.Delimited

/-!
# Writing definitions

`Definition.code` writes a definition in its canonical form: one blank between symbols, a bar
between blanks between productions, and the interior of a group between blanks. An empty production
is written as nothing.
-/

namespace Bnf

mutual
/-- The text of a symbol. -/
def Symbol.code : Symbol → List Char
  | .terminal literal => Text.delimit '"' '"' literal.toList
  | .reference name => Text.delimit '<' '>' name.toList
  | .charClass pattern => pattern.toList
  | .unknown code => code.toList
  | .group alternatives =>
    ['(', ' '] ++ [' ', '|', ' '].intercalate (Definition.codes alternatives) ++ [' ', ')']
  | .optional body => body.code ++ ['?']
  | .repeated body => body.code ++ ['*']
termination_by structural s => s

/-- The texts of the symbols of a production. -/
def Production.codes : List Symbol → List (List Char)
  | [] => []
  | symbol :: rest => symbol.code :: Production.codes rest
termination_by structural p => p

/-- The texts of the productions of a definition. -/
def Definition.codes : List (List Symbol) → List (List Char)
  | [] => []
  | production :: rest =>
    [' '].intercalate (Production.codes production) :: Definition.codes rest
termination_by structural d => d
end

/-- The text of a production. -/
def Production.code (production : Production) : List Char :=
  [' '].intercalate (Production.codes production)

/-- The text of a definition. -/
def Definition.code (definition : Definition) : List Char :=
  [' ', '|', ' '].intercalate (Definition.codes definition)

theorem Production.codes_eq_map (production : Production) :
    Production.codes production = production.map Symbol.code := by
  induction production with
  | nil => rfl
  | cons symbol rest ih => simp [Production.codes, ih]

theorem Definition.codes_eq_map (definition : Definition) :
    Definition.codes definition = definition.map Production.code := by
  induction definition with
  | nil => rfl
  | cons production rest ih => simp [Definition.codes, Production.code, ih]

/-- A group is written as its definition between parentheses and blanks. -/
theorem Symbol.code_group (alternatives : Definition) :
    (Symbol.group alternatives).code =
      ['(', ' '] ++ Definition.code alternatives ++ [' ', ')'] := by
  simp [Symbol.code, Definition.code]

end Bnf
