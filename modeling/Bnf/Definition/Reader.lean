import Bnf.CharSet
import Bnf.Definition.Basic
import Bnf.Fault
import Bnf.Nesting
import Bnf.Text.Delimited

/-!
# Reading definitions

A text is cut into alternatives, an alternative into tokens, and each token is classified by its
first and last character: a trailing star or question mark modifies the rest, and quotes, angle
brackets, parentheses and square brackets mark the kinds of symbols. Parentheses have to enclose
their whole token, the other marks must not occur inside, and square brackets have to enclose a
well-written set. Any other token is an unknown symbol, so that every text is a definition, with one
exception: where square brackets name a code point that is larger than any integer of 32 bits,
reading faults.

The interior of a group is read as a definition again. It is shorter than its token, so that reading
ends, and `Definition.read_eq_mapM` is the equation of the recursion.
-/

namespace Bnf

variable [UnicodeData]

/-- The symbol that a bracketed token writes if it is a set, and else an unknown one. -/
def Symbol.ofBracketed (token : List Char) : Except Fault Symbol :=
  match CharSet.read token with
  | .ok _ => .ok (.charClass (String.ofList token))
  | .error .malformed => .ok (.unknown (String.ofList token))
  | .error .overflow => .error .codePointOverflow

/-- The symbol that a token without modifier writes, given how to read the interior of a group. -/
def Symbol.ofBase (token : List Char)
    (readGroup : (inside : List Char) → inside.length < token.length → Except Fault Definition) :
    Except Fault Symbol :=
  if let some literal := Text.delimited? '"' '"' token then .ok (.terminal (String.ofList literal))
  else if let some name := Text.delimited? '<' '>' token then .ok (.reference (String.ofList name))
  else match h : Nesting.interior? token with
    | some inside => (readGroup inside (Nesting.length_lt_of_interior? h)).map .group
    | none => Symbol.ofBracketed token

omit [UnicodeData] in
/-- What is shorter than a token without its modifier is shorter than the token. -/
theorem Symbol.length_lt_of_dropLast {token inside : List Char}
    (h : inside.length < token.dropLast.length) : inside.length < token.length :=
  Nat.lt_of_lt_of_le h (List.dropLast_sublist token).length_le

/-- The symbol that a token writes, given how to read the interior of a group. At most one
modifier is taken off the end. -/
def Symbol.ofToken (token : List Char)
    (readGroup : (inside : List Char) → inside.length < token.length → Except Fault Definition) :
    Except Fault Symbol :=
  let readShorter (inside : List Char) (h : inside.length < token.dropLast.length) :=
    readGroup inside (Symbol.length_lt_of_dropLast h)
  match token.getLast? with
  | some '*' => (Symbol.ofBase token.dropLast readShorter).map .repeated
  | some '?' => (Symbol.ofBase token.dropLast readShorter).map .optional
  | _ => Symbol.ofBase token readGroup

/-- The definition that a text writes. -/
def Definition.read (text : List Char) : Except Fault Definition :=
  (Nesting.alternatives text).attach.mapM fun ⟨alternative, halternative⟩ =>
    (Nesting.tokens alternative).attach.mapM fun ⟨token, htoken⟩ =>
      Symbol.ofToken token fun inside hinside =>
        have : inside.length < text.length :=
          Nat.lt_of_lt_of_le hinside (Nat.le_trans (Nesting.length_le_of_mem_tokens htoken)
            (Nesting.length_le_of_mem_alternatives halternative))
        Definition.read inside
termination_by text.length

/-- The symbol that a token writes. -/
def Symbol.read (token : List Char) : Except Fault Symbol :=
  Symbol.ofToken token fun inside _ => Definition.read inside

/-- The production that an alternative writes. -/
def Production.read (text : List Char) : Except Fault Production :=
  (Nesting.tokens text).mapM Symbol.read

/-- A definition is read alternative by alternative. -/
theorem Definition.read_eq_mapM (text : List Char) :
    Definition.read text = (Nesting.alternatives text).mapM Production.read := by
  rw [Definition.read]
  simp only [List.mapM_subtype, List.unattach_attach]
  rfl

end Bnf
