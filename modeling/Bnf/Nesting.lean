import Bnf.Text.Blank

/-!
# Text with parentheses

A definition nests its groups in parentheses, and a separator counts only outside of them. The
depth of a place in a text is the number of opening parentheses before it less the number of
closing ones; a text that closes more than it opens has places of negative depth. `cut` cuts a text
at the separators of depth zero. It has two uses: `alternatives` cuts a definition at its bars, and
`tokens` cuts an alternative at its blanks.
-/

namespace Bnf.Nesting

/-- The depth after a character that stands at this depth. -/
def step (depth : Int) (c : Char) : Int :=
  if c = '(' then depth + 1 else if c = ')' then depth - 1 else depth

/-- The number of opening parentheses of a text less the number of its closing ones. -/
def balance (text : List Char) : Int :=
  text.foldl step 0

/-- The pieces of a text that starts at this depth, between its separators of depth zero. -/
def cut (separates : Char → Bool) (depth : Int) : List Char → List (List Char)
  | [] => [[]]
  | c :: rest =>
    if depth = 0 ∧ separates c then [] :: cut separates depth rest
    else (cut separates (step depth c) rest).modifyHead (c :: ·)

/-- The alternatives of a definition: what stands between its bars of depth zero, stripped. An
empty alternative counts. -/
def alternatives (text : List Char) : List (List Char) :=
  (cut (· == '|') 0 text).map Text.strip

/-- The tokens of an alternative: what stands between its blanks of depth zero. A group is one
token, and a modifier belongs to the token before it. -/
def tokens (text : List Char) : List (List Char) :=
  (cut Text.isBlank 0 text).filter fun token => !token.isEmpty

/-- Whether the depth of a text that starts at this depth comes to zero for the first time after
the last character. -/
def closesAtEnd (depth : Int) : List Char → Bool
  | [] => false
  | c :: rest => if step depth c = 0 then rest.isEmpty else closesAtEnd (step depth c) rest

/-- What stands inside the parentheses that enclose a whole text, if its first character opens a
pair and its last one closes that pair. -/
def interior? : List Char → Option (List Char)
  | [] => none
  | c :: rest => if c = '(' ∧ closesAtEnd 1 rest then some rest.dropLast else none

/-- A cut has at least one piece. -/
theorem cut_ne_nil (separates : Char → Bool) (depth : Int) (text : List Char) :
    cut separates depth text ≠ [] := by
  induction text generalizing depth with
  | nil => simp [cut]
  | cons c rest ih =>
    simp only [cut]
    split
    · simp
    · simpa [List.modifyHead_eq_nil_iff] using ih _

/-- No piece of a cut is longer than the text. -/
theorem length_le_of_mem_cut {separates : Char → Bool} {depth : Int} {text piece : List Char}
    (h : piece ∈ cut separates depth text) : piece.length ≤ text.length := by
  induction text generalizing depth piece with
  | nil => simp_all [cut]
  | cons c rest ih =>
    simp only [cut] at h
    split at h
    · rcases List.mem_cons.1 h with rfl | h
      · simp
      · exact Nat.le_succ_of_le (ih h)
    · obtain ⟨first, more, hcut⟩ :=
        List.exists_cons_of_ne_nil (cut_ne_nil separates (step depth c) rest)
      rw [hcut, List.modifyHead_cons] at h
      rcases List.mem_cons.1 h with rfl | h
      · simpa using ih (hcut ▸ List.mem_cons_self)
      · exact Nat.le_succ_of_le (ih (hcut ▸ List.mem_cons_of_mem _ h))

/-- Stripping does not lengthen a text. -/
theorem length_strip_le (text : List Char) : (Text.strip text).length ≤ text.length := by
  simp only [Text.strip, Text.stripEnd, List.length_reverse]
  have hfront := (List.dropWhile_sublist Text.isBlank (l := text)).length_le
  have hback := (List.dropWhile_sublist Text.isBlank
    (l := (text.dropWhile Text.isBlank).reverse)).length_le
  simp only [List.length_reverse] at hback
  omega

/-- No alternative is longer than its definition. -/
theorem length_le_of_mem_alternatives {text piece : List Char} (h : piece ∈ alternatives text) :
    piece.length ≤ text.length := by
  simp only [alternatives, List.mem_map] at h
  obtain ⟨raw, hraw, rfl⟩ := h
  exact Nat.le_trans (length_strip_le raw) (length_le_of_mem_cut hraw)

/-- No token is longer than its alternative. -/
theorem length_le_of_mem_tokens {text token : List Char} (h : token ∈ tokens text) :
    token.length ≤ text.length :=
  length_le_of_mem_cut (List.mem_filter.1 h).1

/-- What stands inside parentheses is shorter than the whole. -/
theorem length_lt_of_interior? {text inside : List Char} (h : interior? text = some inside) :
    inside.length < text.length := by
  cases text with
  | nil => simp [interior?] at h
  | cons c rest =>
    simp only [interior?] at h
    split at h
    · cases Option.some.inj h
      simp only [List.length_dropLast, List.length_cons]
      omega
    · cases h

end Bnf.Nesting
