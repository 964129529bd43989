import Bnf.Text.Pieces

/-!
# The line of a rule

A rule is written as its name in angle brackets, the sign `::=` between single blanks, and its
definition, on one line. The first place at which the separator stands ends the name, so that the
definition may contain it again. Blanks around the line, the name and the definition do not count.
-/

namespace Bnf.RuleLine

/-- What stands between the name of a rule and its definition. -/
def separator : List Char :=
  ['>', ' ', ':', ':', '=', ' ']

/-- The name and the definition that a line writes, if it has the form of a rule. -/
def read? (line : List Char) : Option (List Char × List Char) :=
  let text := Text.strip line
  if '\n' ∈ text then none
  else match text with
    | '<' :: rest =>
      (Text.cutAt? separator rest).map fun (name, source) => (Text.strip name, Text.strip source)
    | _ => none

/-- Whether a stripped line is to be passed over: it is blank or a comment. -/
def isSkipped : List Char → Bool
  | [] => true
  | c :: _ => c == '#'

end Bnf.RuleLine
