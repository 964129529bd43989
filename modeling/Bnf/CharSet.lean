import Bnf.Text.Blank
import Bnf.Text.Delimited
import Bnf.UnicodeData

/-!
# Bracketed character sets

A set such as `[a-z_]` or `[^\d]` lists single characters, ranges and categories, and denotes the
characters that belong to one of them, or with a leading caret those that belong to none. The text
between the brackets is read in two steps. `atoms` resolves the escapes and gives one atom for each
character, code point or category that is written, and `members?` joins the atoms around a bare
hyphen to ranges. Members are code points and not characters, so that an escape may name a code
point at which no character exists.

A text that is not well written is refused. An escape of a code point that is larger than any
integer of 32 bits is refused too, but for a reason of its own. The first mistake of the text
decides: a reversed range before such an escape is a mistake that comes first.
-/

namespace Bnf

variable [UnicodeData]

/-- A category of characters that an escape names. -/
inductive CharCategory where
  | digit
  | blank
  | word
  deriving Repr, DecidableEq

/-- Whether a character belongs to the category. Words consist of letters, numbers and low
lines. -/
def CharCategory.contains : CharCategory → Char → Bool
  | digit, c => UnicodeData.isDecimalDigit c
  | blank, c => Text.isBlank c
  | word, c => UnicodeData.isAlphanumeric c || c == '_'

/-- Why a bracketed text denotes no set. -/
inductive CharSet.Refusal where
  /-- The text is not well written. -/
  | malformed
  /-- An escape names a code point that is larger than any integer of 32 bits. -/
  | overflow
  deriving Repr, DecidableEq

/-- A member of a set: the code points from `low` to `high`, or a category or its complement. -/
inductive CharSet.Member where
  | span (low high : Nat)
  | category (kind : CharCategory) (complement : Bool)
  deriving Repr, DecidableEq

/-- A set of characters: those that belong to one of the members, or if the set is negated those
that belong to none. -/
structure CharSet where
  negated : Bool
  members : List CharSet.Member
  deriving Repr, DecidableEq

namespace CharSet

/-- Whether a character belongs to a member. -/
def Member.contains : Member → Char → Bool
  | span low high, c => low ≤ c.toNat && c.toNat ≤ high
  | category kind complement, c => kind.contains c != complement

/-- Whether a character belongs to the set. -/
def contains (set : CharSet) (c : Char) : Bool :=
  set.members.any (·.contains c) != set.negated

/-- Whether a token consists of exactly one character of the set. -/
def accepts (set : CharSet) (token : String) : Bool :=
  match token.toList with
  | [c] => set.contains c
  | _ => false

/-- One unit of the text of a set. A hyphen that is not escaped is an atom of its own, because it
may join its neighbours to a range. -/
inductive Atom where
  | hyphen
  | point (code : Nat)
  | category (kind : CharCategory) (complement : Bool)
  deriving Repr, DecidableEq

/-- The code point that an atom stands for, unless it is a category. -/
def Atom.code? : Atom → Option Nat
  | hyphen => some '-'.toNat
  | point code => some code
  | category _ _ => none

/-- The member that an atom is by itself. -/
def Atom.member : Atom → Member
  | hyphen => .span '-'.toNat '-'.toNat
  | point code => .span code code
  | category kind complement => .category kind complement

/-- The escapes of control characters. -/
def controlEscapes : List (Char × Nat) :=
  [('a', 0x07), ('b', 0x08), ('t', 0x09), ('n', 0x0A), ('v', 0x0B), ('f', 0x0C), ('r', 0x0D)]

/-- The escapes of categories, a capital letter for the complement. -/
def categoryEscapes : List (Char × CharCategory × Bool) :=
  [('d', .digit, false), ('D', .digit, true), ('s', .blank, false), ('S', .blank, true),
   ('w', .word, false), ('W', .word, true)]

/-- The escapes of code points in hexadecimal, and how many digits each takes. -/
def hexEscapes : List (Char × Nat) :=
  [('x', 2), ('u', 4), ('U', 8)]

/-- The value of an ASCII digit, with letters for the digits from ten on, if it is below the
base. -/
def digit? (base : Nat) (c : Char) : Option Nat :=
  let value :=
    if c.isDigit then c.toNat - '0'.toNat
    else if c.isLower then c.toNat - 'a'.toNat + 10
    else if c.isUpper then c.toNat - 'A'.toNat + 10
    else base
  if value < base then some value else none

/-- The number that digits write, most significant first. -/
def number? (base : Nat) (digits : List Char) : Option Nat :=
  (digits.mapM (digit? base)).map fun values => values.foldl (fun sum value => sum * base + value) 0

/-- The atom of a code point that an escape names by its number, and the text after it. -/
def numbered (code : Nat) (after : List Char) : Except Refusal (Atom × List Char) :=
  if code ≤ 0x10FFFF then .ok (.point code, after)
  else if code < 0x80000000 then .error .malformed
  else .error .overflow

/-- The atom of a character that an escape names in braces, and the text after it. -/
def named : List Char → Except Refusal (Atom × List Char)
  | '{' :: rest =>
    let name := rest.takeWhile (· ≠ '}')
    match rest.dropWhile (· ≠ '}'), UnicodeData.named? name with
    | _ :: after, some c =>
      if name.isEmpty then .error .malformed else .ok (.point c.toNat, after)
    | _, _ => .error .malformed
  | _ => .error .malformed

/-- The atom that a backslash begins together with this character, and the text after it. A
character that is neither an ASCII letter nor an ASCII digit stands for itself. -/
def escape (c : Char) (rest : List Char) : Except Refusal (Atom × List Char) :=
  if let some code := controlEscapes.lookup c then .ok (.point code, rest)
  else if let some (kind, complement) := categoryEscapes.lookup c then
    .ok (.category kind complement, rest)
  else if let some width := hexEscapes.lookup c then
    match number? 16 (rest.take width) with
    | some code =>
      if (rest.take width).length = width then numbered code (rest.drop width)
      else .error .malformed
    | none => .error .malformed
  else if c = 'N' then named rest
  else if (digit? 8 c).isSome then
    let more := (rest.take 2).takeWhile fun d => (digit? 8 d).isSome
    match number? 8 (c :: more) with
    | some code =>
      if code ≤ 0xFF then .ok (.point code, rest.drop more.length) else .error .malformed
    | none => .error .malformed
  else if c.isAlphanum then .error .malformed
  else .ok (.point c.toNat, rest)

omit [UnicodeData] in
/-- A code point is named by its number without further text. -/
theorem after_of_numbered {code : Nat} {rest after : List Char} {atom : Atom}
    (h : numbered code rest = .ok (atom, after)) : after = rest := by
  unfold numbered at h
  split at h
  · cases h
    rfl
  · split at h <;> cases h

/-- A name in braces is followed by an end of the text. -/
theorem suffix_of_named {rest after : List Char} {atom : Atom}
    (h : named rest = .ok (atom, after)) : after <:+ rest := by
  unfold named at h
  split at h
  · rename_i text
    dsimp only at h
    split at h
    · rename_i closing left c hleft _
      split at h
      · cases h
      · cases h
        have hdrop := List.dropWhile_suffix (l := text) fun d => decide (d ≠ '}')
        rw [hleft] at hdrop
        exact (List.suffix_cons _ _).trans (hdrop.trans (List.suffix_cons _ _))
    · cases h
  · cases h

/-- An escape is followed by an end of the text that its backslash is followed by. -/
theorem suffix_of_escape {c : Char} {rest after : List Char} {atom : Atom}
    (h : escape c rest = .ok (atom, after)) : after <:+ rest := by
  unfold escape at h
  dsimp only at h
  repeat' split at h
  all_goals first
    | exact suffix_of_named h
    | (cases after_of_numbered h; exact List.drop_suffix _ _)
    | (cases h; exact List.suffix_rfl)
    | (cases h; exact List.drop_suffix _ _)
    | cases h

/-- The atoms of the text of a set up to the first escape that is refused, and why it is. -/
def atoms : List Char → List Atom × Option Refusal
  | [] => ([], none)
  | c :: rest =>
    if c = '\\' then
      match rest with
      | [] => ([], some .malformed)
      | d :: rest =>
        match h : escape d rest with
        | .error refusal => ([], some refusal)
        | .ok (atom, after) =>
          have := (suffix_of_escape h).length_le
          (atoms after).map (atom :: ·) id
    else (atoms rest).map ((if c = '-' then .hyphen else .point c.toNat) :: ·) id
termination_by text => text.length

/-- The members that atoms make up. A hyphen between two atoms makes them a range, which must not
be reversed and must not begin or end with a category. -/
def members? : List Atom → Option (List Member)
  | [] => some []
  | low :: .hyphen :: high :: rest => do
    let first ← low.code?
    let last ← high.code?
    if first ≤ last then (members? rest).map (.span first last :: ·) else none
  | atom :: rest => (members? rest).map (atom.member :: ·)

/-- The set that a text between brackets lists. It must list something, and its atoms must make up
members as far as they go before an escape is refused. -/
def ofBody (negated : Bool) (body : List Char) : Except Refusal CharSet :=
  if body.isEmpty then .error .malformed
  else match members? (atoms body).1, (atoms body).2 with
    | some members, none => .ok ⟨negated, members⟩
    | some _, some refusal => .error refusal
    | none, _ => .error .malformed

/-- The set that a bracketed text denotes, or why it denotes none. The first closing bracket ends
the text. -/
def read (text : List Char) : Except Refusal CharSet :=
  match Text.delimited? '[' ']' text with
  | none => .error .malformed
  | some ('^' :: body) => ofBody true body
  | some body => ofBody false body

/-- The set that a bracketed text denotes, if it does. -/
def read? (text : List Char) : Option CharSet :=
  (read text).toOption

end CharSet

end Bnf
