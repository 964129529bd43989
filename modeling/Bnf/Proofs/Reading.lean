import Bnf.Definition.Reader
import Bnf.Proofs.Nesting
import Mathlib

/-!
# Reading as a tree and a check

Reading faults at the first bracketed text that names a code point which is too large. Without the
faults, every text would be a definition: its tree (`Definition.tree`), in which such a bracketed
text is an unknown symbol. Reading comes to the same as making the tree and then looking for such
unknown symbols in it, which is `Definition.read_eq_checked`. So what holds of the trees of all
texts holds of all definitions that are read.
-/

namespace Bnf

variable [UnicodeData]

/-! ## Trees -/

/-- The symbol of a token without modifier, given the definition inside of a group. -/
def Symbol.treeOfBase (token : List Char)
    (treeOfGroup : (inside : List Char) → inside.length < token.length → Definition) : Symbol :=
  if let some literal := Text.delimited? '"' '"' token then .terminal (String.ofList literal)
  else if let some name := Text.delimited? '<' '>' token then .reference (String.ofList name)
  else match h : Nesting.interior? token with
    | some inside => .group (treeOfGroup inside (Nesting.length_lt_of_interior? h))
    | none =>
      if (CharSet.read? token).isSome then .charClass (String.ofList token)
      else .unknown (String.ofList token)

/-- The symbol of a token, given the definition inside of a group. -/
def Symbol.treeOfToken (token : List Char)
    (treeOfGroup : (inside : List Char) → inside.length < token.length → Definition) : Symbol :=
  let treeOfShorter (inside : List Char) (h : inside.length < token.dropLast.length) :=
    treeOfGroup inside (Symbol.length_lt_of_dropLast h)
  match token.getLast? with
  | some '*' => .repeated (Symbol.treeOfBase token.dropLast treeOfShorter)
  | some '?' => .optional (Symbol.treeOfBase token.dropLast treeOfShorter)
  | _ => Symbol.treeOfBase token treeOfGroup

/-- The definition of a text. -/
def Definition.tree (text : List Char) : Definition :=
  (Nesting.alternatives text).attach.map fun ⟨alternative, halternative⟩ =>
    (Nesting.tokens alternative).attach.map fun ⟨token, htoken⟩ =>
      Symbol.treeOfToken token fun inside hinside =>
        have : inside.length < text.length :=
          Nat.lt_of_lt_of_le hinside (Nat.le_trans (Nesting.length_le_of_mem_tokens htoken)
            (Nesting.length_le_of_mem_alternatives halternative))
        Definition.tree inside
termination_by text.length

/-- The symbol of a token. -/
def Symbol.tree (token : List Char) : Symbol :=
  Symbol.treeOfToken token fun inside _ => Definition.tree inside

/-- The symbol of a token without modifier. -/
def Symbol.treeBase (token : List Char) : Symbol :=
  Symbol.treeOfBase token fun inside _ => Definition.tree inside

/-- The production of an alternative. -/
def Production.tree (text : List Char) : Production :=
  (Nesting.tokens text).map Symbol.tree

/-- The tree of a definition is made alternative by alternative. -/
theorem Definition.tree_eq_map (text : List Char) :
    Definition.tree text = (Nesting.alternatives text).map Production.tree := by
  rw [Definition.tree]
  simp [Production.tree, Symbol.tree]

/-! ## Checks -/

/-- Whether a bracketed text names a code point that is too large. -/
def CharSet.overflows (text : List Char) : Bool :=
  match read text with
  | .error .overflow => true
  | .error .malformed | .ok _ => false

mutual
/-- Whether an unknown symbol names a code point that is too large. -/
def Symbol.overflows : Symbol → Bool
  | .unknown code => CharSet.overflows code.toList
  | .group alternatives => Definition.overflows alternatives
  | .optional body | .repeated body => body.overflows
  | .terminal _ | .reference _ | .charClass _ => false
termination_by structural s => s

/-- Whether a symbol of a production names a code point that is too large. -/
def Production.overflows : List Symbol → Bool
  | [] => false
  | symbol :: rest => symbol.overflows || Production.overflows rest
termination_by structural p => p

/-- Whether a symbol of a definition names a code point that is too large. -/
def Definition.overflows : List (List Symbol) → Bool
  | [] => false
  | production :: rest => Production.overflows production || Definition.overflows rest
termination_by structural d => d
end

theorem Production.overflows_eq_any (production : Production) :
    Production.overflows production = production.any Symbol.overflows := by
  induction production with
  | nil => rfl
  | cons symbol rest ih => rw [Production.overflows, ih, List.any_cons]

theorem Definition.overflows_eq_any (definition : Definition) :
    Definition.overflows definition = definition.any Production.overflows := by
  induction definition with
  | nil => rfl
  | cons production rest ih => rw [Definition.overflows, ih, List.any_cons]

/-- A value, unless it is faulty. -/
def checked {α : Type} (overflows : Bool) (value : α) : Except Fault α :=
  if overflows then .error .codePointOverflow else .ok value

omit [UnicodeData] in
theorem map_checked {α β : Type} (function : α → β) (overflows : Bool) (value : α) :
    (checked overflows value).map function = checked overflows (function value) := by
  cases overflows <;> rfl

omit [UnicodeData] in
theorem checked_eq_ok_iff {α : Type} {overflows : Bool} {value result : α} :
    checked overflows value = .ok result ↔ overflows = false ∧ value = result := by
  cases overflows <;> simp [checked]

omit [UnicodeData] in
theorem checked_eq_error_iff {α : Type} {overflows : Bool} {value : α} {fault : Fault} :
    checked overflows value = .error fault ↔ overflows = true ∧ fault = .codePointOverflow := by
  cases overflows <;> simp [checked, eq_comm]

omit [UnicodeData] in
/-- Values that are checked one by one are checked together. -/
theorem mapM_checked {α β : Type} {read : α → Except Fault β} {tree : α → β} {faulty : β → Bool}
    (h : ∀ value, read value = checked (faulty (tree value)) (tree value)) (values : List α) :
    values.mapM read = checked ((values.map tree).any faulty) (values.map tree) := by
  induction values with
  | nil => rfl
  | cons value rest ih =>
      rw [List.mapM_cons, h, ih, List.map_cons, List.any_cons]
      cases faulty (tree value)
      · cases (rest.map tree).any faulty <;> rfl
      · rfl

/-! ## Reading -/

/-- A token that parentheses enclose is a group. -/
theorem Symbol.treeOfBase_group {token inside : List Char}
    (hquote : Text.delimited? '"' '"' token = none) (hangle : Text.delimited? '<' '>' token = none)
    (hinside : Nesting.interior? token = some inside)
    (treeOfGroup : (inside : List Char) → inside.length < token.length → Definition) :
    Symbol.treeOfBase token treeOfGroup =
      .group (treeOfGroup inside (Nesting.length_lt_of_interior? hinside)) := by
  simp only [Symbol.treeOfBase, hquote, hangle]
  split
  · rename_i found hfound
    rw [hinside] at hfound
    cases hfound
    rfl
  · rename_i hfound
    rw [hinside] at hfound
    cases hfound

/-- A token without any other mark is a set or unknown. -/
theorem Symbol.treeOfBase_of_none {token : List Char}
    (hquote : Text.delimited? '"' '"' token = none) (hangle : Text.delimited? '<' '>' token = none)
    (hinside : Nesting.interior? token = none)
    (treeOfGroup : (inside : List Char) → inside.length < token.length → Definition) :
    Symbol.treeOfBase token treeOfGroup =
      if (CharSet.read? token).isSome then .charClass (String.ofList token)
      else .unknown (String.ofList token) := by
  simp only [Symbol.treeOfBase, hquote, hangle]
  split
  · rename_i found hfound
    rw [hinside] at hfound
    cases hfound
  · rfl

/-- A bracketed token is read as its tree is checked. -/
theorem Symbol.ofBracketed_eq_checked (token : List Char) :
    Symbol.ofBracketed token =
      if (CharSet.read? token).isSome then .ok (.charClass (String.ofList token))
      else checked (Symbol.unknown (String.ofList token)).overflows
        (.unknown (String.ofList token)) := by
  rw [Symbol.ofBracketed, CharSet.read?, Symbol.overflows, String.toList_ofList,
    CharSet.overflows]
  rcases CharSet.read token with (_ | _) | set <;> rfl

/-- A token without modifier is read as its tree is checked, if the insides of groups are. -/
theorem Symbol.ofBase_eq_checked {token : List Char}
    {readGroup : (inside : List Char) → inside.length < token.length → Except Fault Definition}
    {treeOfGroup : (inside : List Char) → inside.length < token.length → Definition}
    (h : ∀ inside hinside, readGroup inside hinside =
      checked (Definition.overflows (treeOfGroup inside hinside)) (treeOfGroup inside hinside)) :
    Symbol.ofBase token readGroup =
      checked (Symbol.treeOfBase token treeOfGroup).overflows
        (Symbol.treeOfBase token treeOfGroup) := by
  rw [Symbol.ofBase]
  split
  · rename_i literal hquote
    simp only [Symbol.treeOfBase, hquote]
    rfl
  · rename_i hquote
    rw [← Option.eq_none_iff_forall_ne_some] at hquote
    split
    · rename_i name hangle
      simp only [Symbol.treeOfBase, hquote, hangle]
      rfl
    · rename_i hangle
      rw [← Option.eq_none_iff_forall_ne_some] at hangle
      split
      · rename_i inside hinside
        rw [Symbol.treeOfBase_group hquote hangle hinside, h, map_checked]
        rfl
      · rename_i hinside
        rw [Symbol.treeOfBase_of_none hquote hangle hinside, Symbol.ofBracketed_eq_checked]
        split <;> rfl

/-- A token is read as its tree is checked, if the insides of groups are. -/
theorem Symbol.ofToken_eq_checked {token : List Char}
    {readGroup : (inside : List Char) → inside.length < token.length → Except Fault Definition}
    {treeOfGroup : (inside : List Char) → inside.length < token.length → Definition}
    (h : ∀ inside hinside, readGroup inside hinside =
      checked (Definition.overflows (treeOfGroup inside hinside)) (treeOfGroup inside hinside)) :
    Symbol.ofToken token readGroup =
      checked (Symbol.treeOfToken token treeOfGroup).overflows
        (Symbol.treeOfToken token treeOfGroup) := by
  by_cases hstar : token.getLast? = some '*'
  · simp only [Symbol.ofToken, Symbol.treeOfToken, hstar]
    rw [Symbol.ofBase_eq_checked fun inside hinside => h inside _, map_checked]
    rfl
  by_cases hquestion : token.getLast? = some '?'
  · simp only [Symbol.ofToken, Symbol.treeOfToken, hquestion]
    rw [Symbol.ofBase_eq_checked fun inside hinside => h inside _, map_checked]
    rfl
  · have hread : Symbol.ofToken token readGroup = Symbol.ofBase token readGroup := by
      unfold Symbol.ofToken
      split
      · contradiction
      · contradiction
      · rfl
    have htree : Symbol.treeOfToken token treeOfGroup = Symbol.treeOfBase token treeOfGroup := by
      unfold Symbol.treeOfToken
      split
      · contradiction
      · contradiction
      · rfl
    rw [hread, htree]
    exact Symbol.ofBase_eq_checked h

/-- A definition is read as its tree is checked. -/
theorem Definition.read_eq_checked (text : List Char) :
    Definition.read text = checked (Definition.overflows (Definition.tree text))
      (Definition.tree text) := by
  rw [Definition.read, Definition.tree, Definition.overflows_eq_any]
  refine mapM_checked (fun entry => ?_) _
  obtain ⟨alternative, halternative⟩ := entry
  rw [Production.overflows_eq_any]
  refine mapM_checked (fun entry => ?_) _
  obtain ⟨token, htoken⟩ := entry
  refine Symbol.ofToken_eq_checked fun inside hinside => ?_
  -- The inside of a group is shorter than its token, which is no longer than the text.
  have hshorter : inside.length < text.length :=
    Nat.lt_of_lt_of_le hinside (Nat.le_trans (Nesting.length_le_of_mem_tokens htoken)
      (Nesting.length_le_of_mem_alternatives halternative))
  exact Definition.read_eq_checked inside
termination_by text.length

/-- A symbol is read as its tree is checked. -/
theorem Symbol.read_eq_checked (token : List Char) :
    Symbol.read token = checked (Symbol.tree token).overflows (Symbol.tree token) :=
  Symbol.ofToken_eq_checked fun inside _ => Definition.read_eq_checked inside

/-- Reading faults only at a code point that is too large. -/
theorem Definition.eq_overflow_of_read {text : List Char} {fault : Fault}
    (h : Definition.read text = .error fault) : fault = .codePointOverflow := by
  rw [Definition.read_eq_checked, checked_eq_error_iff] at h
  exact h.2

/-- The text can be read as a definition. -/
def Definition.Readable (source : String) : Prop :=
  ∃ definition, Definition.read source.toList = .ok definition

theorem Definition.readable_iff {source : String} :
    Definition.Readable source ↔
      Definition.overflows (Definition.tree source.toList) = false := by
  rw [Definition.Readable, Definition.read_eq_checked]
  exact ⟨fun ⟨_, h⟩ => (checked_eq_ok_iff.1 h).1, fun h => ⟨_, checked_eq_ok_iff.2 ⟨h, rfl⟩⟩⟩

instance : DecidablePred Definition.Readable :=
  fun _ => decidable_of_iff _ Definition.readable_iff.symm

/-- A text that can be read is read as its tree. -/
theorem Definition.Readable.read_eq {source : String} (h : Definition.Readable source) :
    Definition.read source.toList = .ok (Definition.tree source.toList) := by
  rw [Definition.read_eq_checked, checked_eq_ok_iff]
  exact ⟨Definition.readable_iff.1 h, rfl⟩

/-- A text that cannot be read names a code point that is too large. -/
theorem Definition.read_of_not_readable {source : String} (h : ¬ Definition.Readable source) :
    Definition.read source.toList = .error .codePointOverflow := by
  rw [Definition.readable_iff, Bool.not_eq_false] at h
  rw [Definition.read_eq_checked, checked_eq_error_iff]
  exact ⟨h, rfl⟩

/-! ## Where reading faults -/

namespace CharSet

omit [UnicodeData] in
theorem digit_lt {base value : Nat} {c : Char} (h : digit? base c = some value) : value < base := by
  unfold digit? at h
  dsimp only at h
  generalize (if c.isDigit then _ else _ : Nat) = candidate at h
  split at h
  · cases h
    assumption
  · cases h

omit [UnicodeData] in
/-- Digits write a number that is smaller than the power of the base with as many digits. -/
theorem number_lt {base number : Nat} {digits : List Char} (h : number? base digits = some number) :
    number < base ^ digits.length := by
  obtain ⟨values, hvalues, rfl⟩ := Option.map_eq_some_iff.1 h
  have hfold : ∀ sum, values.foldl (fun sum value => sum * base + value) sum <
      (sum + 1) * base ^ digits.length := by
    clear h
    induction digits generalizing values with
    | nil =>
        cases hvalues
        intro sum
        simp
    | cons c rest ih =>
        rw [List.mapM_cons] at hvalues
        obtain ⟨value, hvalue, hvalues⟩ := Option.bind_eq_some_iff.1 hvalues
        obtain ⟨others, hothers, heq⟩ := Option.bind_eq_some_iff.1 hvalues
        cases heq
        intro sum
        have hlt := digit_lt hvalue
        have hfirst : sum * base + value + 1 ≤ (sum + 1) * base := by
          rw [Nat.succ_mul]
          omega
        calc (value :: others).foldl (fun sum value => sum * base + value) sum
            < (sum * base + value + 1) * base ^ rest.length := ih others hothers _
          _ ≤ (sum + 1) * base * base ^ rest.length := Nat.mul_le_mul_right _ hfirst
          _ = (sum + 1) * base ^ (c :: rest).length := by
            rw [List.length_cons, Nat.pow_succ', Nat.mul_assoc]
  simpa using hfold 0

omit [UnicodeData] in
theorem le_of_numbered {code : Nat} {after : List Char}
    (h : numbered code after = .error .overflow) : 0x80000000 ≤ code := by
  unfold numbered at h
  repeat' split at h
  · cases h
  · cases h
  · omega

/-- A name in braces may be unknown, but names no code point that is too large. -/
theorem named_ne_overflow {rest : List Char} : named rest ≠ .error .overflow := by
  unfold named
  dsimp only
  repeat' split
  all_goals rintro ⟨⟩

/-- Only the escape with eight digits names a code point that is too large. -/
theorem escape_eq_overflow {c : Char} {rest : List Char}
    (h : escape c rest = .error .overflow) : c = 'U' := by
  unfold escape at h
  dsimp only at h
  split at h
  · cases h
  split at h
  · cases h
  split at h
  · rename_i width hwidth
    split at h
    · rename_i code hcode
      split at h
      · rename_i hlength
        have hlt := number_lt hcode
        have hle := le_of_numbered h
        rw [hlength] at hlt
        by_contra hc
        -- Two or four digits write no number as large as that.
        have hshort : width ≤ 4 := by
          obtain ⟨front, back, hsplit, -⟩ := List.lookup_eq_some_iff.1 hwidth
          have hmem : (c, width) ∈ hexEscapes := by simp [hsplit]
          simp only [hexEscapes, List.mem_cons, Prod.mk.injEq, hc, List.not_mem_nil, false_and,
            or_false] at hmem
          rcases hmem with ⟨-, rfl⟩ | ⟨-, rfl⟩ <;> decide
        have hsmall : 16 ^ width ≤ 16 ^ 4 := Nat.pow_le_pow_right (by decide) hshort
        exact absurd (hle.trans (hlt.le.trans hsmall)) (by decide)
      · cases h
    · cases h
  split at h
  · exact (named_ne_overflow h).elim
  repeat' split at h
  all_goals cases h

/-- A text whose escapes are refused for a code point that is too large holds such an escape. -/
theorem infix_of_atoms {text : List Char} (h : (atoms text).2 = some .overflow) :
    ['\\', 'U'] <:+: text := by
  fun_induction atoms text with
  | case1 => cases h
  | case2 => cases h
  | case3 d rest refusal hescape =>
      cases h
      cases escape_eq_overflow hescape
      exact ⟨[], rest, rfl⟩
  | case4 d rest atom after hescape _ ih =>
      exact (ih h).trans
        ((suffix_of_escape hescape).trans (List.suffix_append ['\\', d] rest)).isInfix
  | case5 c rest _ ih => exact (ih h).trans (List.suffix_cons c rest).isInfix

theorem infix_of_ofBody {negated : Bool} {body : List Char}
    (h : ofBody negated body = .error .overflow) : ['\\', 'U'] <:+: body := by
  unfold ofBody at h
  split at h
  · cases h
  · split at h
    · cases h
    · rename_i refusal hrefusal
      cases h
      exact infix_of_atoms hrefusal
    · cases h

/-- A bracketed text that names a code point that is too large holds an escape with eight digits. -/
theorem infix_of_read {text : List Char} (h : read text = .error .overflow) :
    ['\\', 'U'] <:+: text := by
  unfold read at h
  split at h
  · cases h
  · rename_i body hbody
    exact ((infix_of_ofBody h).trans (List.suffix_cons '^' body).isInfix).trans
      (Text.infix_of_delimited hbody)
  · rename_i body _ hbody
    exact (infix_of_ofBody h).trans (Text.infix_of_delimited hbody)

theorem infix_of_overflows {text : List Char} (h : overflows text = true) :
    ['\\', 'U'] <:+: text := by
  unfold overflows at h
  split at h
  · rename_i hread
    exact infix_of_read hread
  · cases h
  · cases h

end CharSet

end Bnf
