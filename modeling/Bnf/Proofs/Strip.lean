import Bnf.Text.Blank
import Mathlib.Data.List.DropRight
import Mathlib.Data.List.TakeWhile

/-!
# Stripped texts

`strip` takes the blanks off the two ends of a text and nothing else. `strip_decomposition` gives
the blanks back, `strip_stripped` says that none is left at an end, and `Stripped.strip_eq` that a
text without blanks at its ends stays as it is.
-/

namespace Bnf.Text

/-- A text that neither begins nor ends with a blank. The empty text is one. -/
structure Stripped (text : List Char) : Prop where
  head_not_blank : ∀ c, text.head? = some c → isBlank c = false
  last_not_blank : ∀ c, text.getLast? = some c → isBlank c = false

/-- Stripping the end is dropping the last run of blanks. -/
theorem strip_end_eq (text : List Char) : stripEnd text = text.rdropWhile isBlank := rfl

/-- A text is its stripped form with blanks put back on both sides. -/
theorem strip_decomposition (text : List Char) :
    ∃ front back, text = front ++ (strip text ++ back) ∧
      (∀ c ∈ front, isBlank c = true) ∧ ∀ c ∈ back, isBlank c = true := by
  refine ⟨text.takeWhile isBlank, (text.dropWhile isBlank).rtakeWhile isBlank, ?_, ?_, ?_⟩
  · rw [strip, strip_end_eq, List.rdropWhile_append_rtakeWhile, List.takeWhile_append_dropWhile]
  · exact fun c hc => List.mem_takeWhile_imp hc
  · exact fun c hc => List.mem_rtakeWhile_imp hc

/-- A stripped text is a part of the text. -/
theorem strip_infix (text : List Char) : strip text <:+: text := by
  obtain ⟨front, back, htext, -, -⟩ := strip_decomposition text
  exact ⟨front, back, by rw [List.append_assoc, ← htext]⟩

/-- A stripped text has no blank at an end. -/
theorem strip_stripped (text : List Char) : Stripped (strip text) := by
  constructor
  · intro c hc
    have hprefix : strip text <+: text.dropWhile isBlank := List.rdropWhile_prefix isBlank _
    have hhead : (text.dropWhile isBlank).head? = some c := by
      obtain ⟨back, hback⟩ := hprefix
      rw [← hback, List.head?_append, hc, Option.some_or]
    have hfirst := List.head?_dropWhile_not isBlank text
    rwa [hhead] at hfirst
  · intro c hc
    have hne : (text.dropWhile isBlank).rdropWhile isBlank ≠ [] := by
      intro hnil
      rw [strip, strip_end_eq, hnil] at hc
      cases hc
    have hlast := List.rdropWhile_last_not isBlank _ hne
    rw [strip, strip_end_eq, List.getLast?_eq_some_getLast hne] at hc
    rw [Option.some.inj hc] at hlast
    exact Bool.eq_false_iff.2 hlast

/-- A text without blanks at its ends is its own stripped form. -/
theorem Stripped.strip_eq {text : List Char} (h : Stripped text) : strip text = text := by
  have hfront : text.dropWhile isBlank = text := by
    rw [List.dropWhile_eq_self_iff]
    intro hlength
    simp [h.head_not_blank text[0] (List.head?_eq_getElem? ▸ List.getElem?_eq_getElem hlength)]
  rw [strip, strip_end_eq, hfront, List.rdropWhile_eq_self_iff]
  intro hne
  simp [h.last_not_blank _ (List.getLast?_eq_some_getLast hne)]

/-- Stripping twice is stripping once. -/
theorem strip_strip (text : List Char) : strip (strip text) = strip text :=
  (strip_stripped text).strip_eq

/-- A blank before a text does not count. -/
theorem strip_cons_blank {c : Char} (hc : isBlank c = true) (text : List Char) :
    strip (c :: text) = strip text := by
  simp [strip, hc]

/-- A blank after a text does not count. -/
theorem strip_append_blank {c : Char} (hc : isBlank c = true) (text : List Char) :
    strip (text ++ [c]) = strip text := by
  rw [strip, strip, List.dropWhile_append]
  split
  · rename_i hempty
    rw [List.isEmpty_iff] at hempty
    rw [hempty, List.dropWhile_cons_of_pos hc, List.dropWhile_nil]
  · rw [strip_end_eq, strip_end_eq, List.rdropWhile_concat_pos isBlank _ c hc]

/-- If one blank before a text and one blank after it do not count, no blanks on its two sides
do. -/
theorem apply_between_blanks {β : Type} {function : List Char → β}
    (hcons : ∀ c text, isBlank c = true → function (c :: text) = function text)
    (happend : ∀ c text, isBlank c = true → function (text ++ [c]) = function text)
    {front back : List Char} (hfront : ∀ c ∈ front, isBlank c = true)
    (hback : ∀ c ∈ back, isBlank c = true) (text : List Char) :
    function (front ++ (text ++ back)) = function text := by
  induction front with
  | cons c rest ih =>
      rw [List.cons_append, hcons c _ (hfront c List.mem_cons_self),
        ih fun d hd => hfront d (List.mem_cons_of_mem _ hd)]
  | nil =>
      rw [List.nil_append]
      induction back using List.reverseRecOn with
      | nil => rw [List.append_nil]
      | append_singleton rest c ih =>
          rw [← List.append_assoc, happend c _ (hback c (by simp)),
            ih fun d hd => hback d (List.mem_append_left _ hd)]

/-- Blanks on both sides of a text do not count. -/
theorem strip_between_blanks {front back : List Char} (hfront : ∀ c ∈ front, isBlank c = true)
    (hback : ∀ c ∈ back, isBlank c = true) (text : List Char) :
    strip (front ++ (text ++ back)) = strip text :=
  apply_between_blanks (fun _ text hc => strip_cons_blank hc text)
    (fun _ text hc => strip_append_blank hc text) hfront hback text

/-- Nothing is left of a text exactly if it is blank. -/
theorem strip_eq_nil_iff {text : List Char} :
    strip text = [] ↔ ∀ c ∈ text, isBlank c = true := by
  constructor
  · intro h
    obtain ⟨front, back, htext, hfront, hback⟩ := strip_decomposition text
    rw [h, List.nil_append] at htext
    rw [htext]
    exact fun c hc => (List.mem_append.1 hc).elim (hfront c) (hback c)
  · intro h
    rw [← List.append_nil text, ← List.nil_append (([] : List Char)),
      strip_between_blanks h (List.forall_mem_nil _)]
    rfl

/-- Stripped texts that are not empty make a stripped text, whatever stands between them. -/
theorem stripped_intercalate (separator : List Char) {pieces : List (List Char)}
    (h : ∀ piece ∈ pieces, piece ≠ [] ∧ Stripped piece) :
    Stripped (separator.intercalate pieces) := by
  induction pieces with
  | nil => exact ⟨fun c hc => by simp at hc, fun c hc => by simp at hc⟩
  | cons piece rest ih =>
      obtain ⟨hne, hpiece⟩ := h piece List.mem_cons_self
      cases rest with
      | nil => rwa [List.intercalate_singleton]
      | cons next more =>
          have hmore := ih fun p hp => h p (List.mem_cons_of_mem _ hp)
          have hnext : separator.intercalate (next :: more) ≠ [] := by
            obtain ⟨c, tail, hnext⟩ := List.exists_cons_of_ne_nil (h next (by simp)).1
            rw [hnext, List.intercalate_cons_cons_left]
            exact List.cons_ne_nil _ _
          rw [List.intercalate_cons_cons]
          constructor
          · intro c hc
            rw [List.append_assoc, List.head?_append_of_ne_nil _ hne] at hc
            exact hpiece.head_not_blank c hc
          · intro c hc
            rw [List.getLast?_append_of_ne_nil _ hnext] at hc
            exact hmore.last_not_blank c hc

end Bnf.Text
