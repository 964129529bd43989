/-!
# Delimited text

A text is delimited by a pair of marks if it begins with the first, ends with the second, and holds
the second nowhere between. `delimited?_eq_some_iff` says that the reader of delimited text accepts
exactly what `delimit` writes around a text without the closing mark.
-/

namespace Bnf.Text

/-- A text between two marks. -/
def delimit (opening closing : Char) (inside : List Char) : List Char :=
  opening :: (inside ++ [closing])

/-- What stands between the marks of a delimited text. -/
def delimited? (opening closing : Char) : List Char → Option (List Char)
  | [] => none
  | c :: rest =>
    if c = opening ∧ rest.getLast? = some closing ∧ closing ∉ rest.dropLast then
      some rest.dropLast
    else none

/-- A text is delimited, with this between its marks, exactly if it is written so. -/
theorem delimited?_eq_some_iff {opening closing : Char} {text inside : List Char} :
    delimited? opening closing text = some inside ↔
      text = delimit opening closing inside ∧ closing ∉ inside := by
  cases text with
  | nil => simp [delimited?, delimit]
  | cons c rest =>
    simp only [delimited?, delimit, List.cons.injEq]
    constructor
    · intro h
      split at h
      · rename_i hc
        obtain ⟨rfl, hlast, hmem⟩ := hc
        cases Option.some.inj h
        refine ⟨⟨rfl, ?_⟩, hmem⟩
        obtain ⟨before, rfl⟩ := List.getLast?_eq_some_iff.1 hlast
        simp
      · cases h
    · rintro ⟨⟨rfl, rfl⟩, hmem⟩
      simp [hmem]

/-- What stands between the marks stands in the text. -/
theorem infix_of_delimited {opening closing : Char} {text inside : List Char}
    (h : delimited? opening closing text = some inside) : inside <:+: text := by
  rw [(delimited?_eq_some_iff.1 h).1]
  exact ⟨[opening], [closing], rfl⟩

end Bnf.Text
