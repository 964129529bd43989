import Bnf.Text.Blank

/-!
# Cutting text into pieces

`split` cuts a text at its separators, `words` at its blanks and `lines` at its line feeds, and
`cutAt?` at the first place where a marker stands. `takeLine?` reads the lines of a text one by one.
`split_intercalate` says that a cut loses nothing but the separators, and `split_append` where it
ends.
-/

namespace Bnf.Text

/-- The pieces of a text between its separators. There is one piece more than there are
separators, so the empty text has one empty piece. -/
def split (separates : Char → Bool) : List Char → List (List Char)
  | [] => [[]]
  | c :: rest =>
    if separates c then [] :: split separates rest
    else (split separates rest).modifyHead (c :: ·)

/-- The words of a text: its maximal runs of characters that are not blank. -/
def words (text : List Char) : List (List Char) :=
  (split isBlank text).filter fun word => !word.isEmpty

/-- The lines of a text, each without the line feed that ends it. A last line without line feed
counts if it is not empty. -/
def lines : List Char → List (List Char)
  | [] => []
  | c :: rest =>
    if c = '\n' then [] :: lines rest
    else match lines rest with
      | [] => [[c]]
      | line :: more => (c :: line) :: more

/-- Takes the first line off a text, with the line feed that ends it, and gives the rest as well.
There is no line in the empty text. -/
def takeLine? : List Char → Option (List Char × List Char)
  | [] => none
  | c :: rest =>
    if c = '\n' then some ([c], rest)
    else match takeLine? rest with
      | none => some ([c], [])
      | some (line, left) => some (c :: line, left)

/-- The text with every line end, whether carriage return, line feed or the two in a row, written
as one line feed. -/
def unifyLineEnds : List Char → List Char
  | '\r' :: '\n' :: rest => '\n' :: unifyLineEnds rest
  | c :: rest => (if c = '\r' then '\n' else c) :: unifyLineEnds rest
  | [] => []

/-- The two sides of the leftmost occurrence of a marker, or nothing if it does not occur. -/
def cutAt? (marker : List Char) : List Char → Option (List Char × List Char)
  | [] => if marker.isEmpty then some ([], []) else none
  | c :: rest =>
    if marker.isPrefixOf (c :: rest) then some ([], (c :: rest).drop marker.length)
    else (cutAt? marker rest).map fun (before, after) => (c :: before, after)

/-- A line can be taken off every text that is not empty. -/
theorem takeLine?_eq_none_iff {text : List Char} : takeLine? text = none ↔ text = [] := by
  cases text with
  | nil => simp [takeLine?]
  | cons c rest =>
    rw [takeLine?]
    split
    · simp
    · cases takeLine? rest <;> simp

/-- What is taken off a text and what is left of it make up the text, and something is taken. -/
theorem takeLine?_eq_some {text line left : List Char} (h : takeLine? text = some (line, left)) :
    text = line ++ left ∧ line ≠ [] := by
  induction text generalizing line with
  | nil => cases h
  | cons c rest ih =>
    rw [takeLine?] at h
    split at h
    · cases h
      simp
    · cases hrest : takeLine? rest with
      | none =>
        rw [hrest] at h
        cases h
        simp [takeLine?_eq_none_iff.1 hrest]
      | some taken =>
        rw [hrest] at h
        cases h
        simp [(ih hrest).1]

/-- Taking a line off a text leaves a shorter text. -/
theorem length_lt_of_takeLine? {text line left : List Char}
    (h : takeLine? text = some (line, left)) : left.length < text.length := by
  obtain ⟨happend, hline⟩ := takeLine?_eq_some h
  have hpos := List.length_pos_iff.2 hline
  rw [happend, List.length_append]
  omega

/-- A cut has at least one piece. -/
theorem split_ne_nil (separates : Char → Bool) (text : List Char) : split separates text ≠ [] := by
  cases text with
  | nil => simp [split]
  | cons c rest =>
    simp only [split]
    split
    · simp
    · simpa [List.modifyHead_eq_nil_iff] using split_ne_nil separates rest

/-- A piece of a cut holds no separator. -/
theorem not_separates_of_mem_split {separates : Char → Bool} {text piece : List Char}
    (h : piece ∈ split separates text) {c : Char} (hc : c ∈ piece) : separates c = false := by
  induction text generalizing piece with
  | nil =>
    rw [split, List.mem_singleton] at h
    rw [h] at hc
    cases hc
  | cons d rest ih =>
    rw [split] at h
    split at h
    · rcases List.mem_cons.1 h with rfl | h
      · cases hc
      · exact ih h hc
    · rename_i hd
      obtain ⟨first, more, hsplit⟩ := List.exists_cons_of_ne_nil (split_ne_nil separates rest)
      rw [hsplit] at h ih
      rcases List.mem_cons.1 h with rfl | h
      · rcases List.mem_cons.1 hc with rfl | hc
        · exact Bool.eq_false_iff.2 hd
        · exact ih List.mem_cons_self hc
      · exact ih (List.mem_cons_of_mem first h) hc

/-- Text without a separator is one piece. -/
theorem split_of_not_mem {separator : Char} {text : List Char} (h : separator ∉ text) :
    split (· == separator) text = [text] := by
  induction text with
  | nil => rfl
  | cons c rest ih =>
    have hc : separator ≠ c := List.ne_of_not_mem_cons h
    rw [split, if_neg (by simpa using hc.symm), ih (List.not_mem_of_not_mem_cons h)]
    rfl

/-- The first piece of a cut goes up to the first separator. -/
theorem split_append {separator : Char} {first : List Char} (h : separator ∉ first)
    (rest : List Char) :
    split (· == separator) (first ++ separator :: rest) =
      first :: split (· == separator) rest := by
  induction first with
  | nil => rw [List.nil_append, split, if_pos (beq_self_eq_true separator)]
  | cons c more ih =>
    have hc : separator ≠ c := List.ne_of_not_mem_cons h
    rw [List.cons_append, split, if_neg (by simpa using hc.symm),
      ih (List.not_mem_of_not_mem_cons h)]
    rfl

/-- Putting the separator back between the pieces of a cut gives the text. -/
theorem split_intercalate (separator : Char) (text : List Char) :
    [separator].intercalate (split (· == separator) text) = text := by
  induction text with
  | nil => rfl
  | cons c rest ih =>
    obtain ⟨first, more, h⟩ := List.exists_cons_of_ne_nil (split_ne_nil (· == separator) rest)
    rw [h] at ih
    by_cases hc : c = separator
    · subst hc
      simp [split, h, List.intercalate_cons_cons, ih]
    · cases more <;> simp_all [split, List.intercalate]

end Bnf.Text
