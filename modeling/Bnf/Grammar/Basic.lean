import Bnf.Definition.Printer
import Bnf.Definition.Reader
import Bnf.Definition.References
import Bnf.Dict

/-!
# Grammars

A grammar keeps two dictionaries. One holds the definitions as they were given, and the other the
rules, which are the definitions as they read. Overwriting a rule keeps its place, and a rule that
is erased and inserted again moves to the end.

A grammar also remembers which rules are known to be free of recursion. This is knowledge about the
rules and no part of them: every change of the rules forgets it.

A definition that cannot be read is kept all the same, before the fault. The rule of its name is
then still the one from before, if there was one, and what the grammar remembers is not forgotten.
-/

namespace Bnf

/-- The line that defines a rule, with its definition in canonical form. -/
def Definition.line (name : String) (definition : Definition) : String :=
  "<" ++ name ++ "> ::= " ++ String.ofList (Definition.code definition)

/-- The texts of the definitions and the rules that they read as, each in the order of the names'
arrival, and the names of rules that are known to be free of recursion. -/
structure Grammar where
  definitions : Dict String
  rules : Dict Definition
  acyclic : List String
  deriving Repr, DecidableEq

namespace Grammar

/-- The grammar without rules. -/
def empty : Grammar :=
  ⟨Dict.empty, Dict.empty, []⟩

/-- The definition of a name as it reads. -/
def definition? (grammar : Grammar) (name : String) : Option Definition :=
  grammar.rules.find? name

/-- Whether there is a rule of this name. -/
def defines (grammar : Grammar) (name : String) : Bool :=
  (grammar.definition? name).isSome

/-- The names of the definitions in order. -/
def names (grammar : Grammar) : List String :=
  grammar.definitions.names

/-- The names of the definitions in order, each with the text that was given. -/
def sources (grammar : Grammar) : List (String × String) :=
  grammar.definitions.entries

variable [UnicodeData]

/-- Adds a rule at the end, or puts it in the place of the rule of the same name. The text of the
definition is kept before it is read. -/
def insert (grammar : Grammar) (name source : String) : Except Fault Unit × Grammar :=
  let definitions := grammar.definitions.put name source
  match Definition.read source.toList with
  | .ok definition => (.ok (), ⟨definitions, grammar.rules.put name definition, []⟩)
  | .error fault => (.error fault, { grammar with definitions })

/-- Removes the definition of a name and its rule, if there is a definition. It is a fault if there
is no rule then. -/
def erase (grammar : Grammar) (name : String) : Except Fault Unit × Grammar :=
  if name ∈ grammar.names then
    let definitions := grammar.definitions.remove name
    if grammar.defines name then (.ok (), ⟨definitions, grammar.rules.remove name, []⟩)
    else (.error (.absentRule name), { grammar with definitions })
  else (.ok (), grammar)

/-- Inserts rules from names and definitions, one after the other up to the first that faults. -/
def insertAll (grammar : Grammar) : List (String × String) → Except Fault Unit × Grammar
  | [] => (.ok (), grammar)
  | (name, source) :: rest =>
    match grammar.insert name source with
    | (.ok (), changed) => changed.insertAll rest
    | (.error fault, changed) => (.error fault, changed)

/-- The grammar that is left when rules are inserted from these names and definitions. -/
def ofSources (sources : List (String × String)) : Grammar :=
  (empty.insertAll sources).2

/-- A new grammar of the rules that these names and definitions write. -/
def construct (sources : List (String × String)) : Except Fault Grammar :=
  (empty.insertAll sources).1.map fun _ => ofSources sources

/-- Inserts all definitions of another grammar, in its order. -/
def merge (grammar other : Grammar) : Except Fault Unit × Grammar :=
  grammar.insertAll other.sources

/-- A new grammar of the definitions of this one. -/
def rebuild (grammar : Grammar) : Except Fault Grammar :=
  construct grammar.sources

/-- The text of the definition of a name that must have one. -/
def source (grammar : Grammar) (name : String) : Except Fault String :=
  match grammar.definitions.find? name with
  | some source => .ok source
  | none => .error (.undefinedRule name)

/-- The rule of a name that must have one. -/
def rule (grammar : Grammar) (name : String) : Except Fault Definition :=
  match grammar.definition? name with
  | some definition => .ok definition
  | none => .error (.undefinedRule name)

/-- The rules in the order of their names' code points. -/
def sorted (grammar : Grammar) : List (String × Definition) :=
  grammar.rules.entries.mergeSort fun first second => !decide (second.1 < first.1)

/-- The lines that define the rules in canonical form, in the order of the names' code points. -/
def printout (grammar : Grammar) : List String :=
  grammar.sorted.map fun (name, definition) => definition.line name

end Grammar

end Bnf
