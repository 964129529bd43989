import Bnf.Proofs.WellFormed
import Bnf.UnicodeData.Version14

/-!
# Definitions are read part by part

A text need not be well nested to be read part by part: it is enough that the part before a
separator opens as many parentheses as it closes, in whatever order it does so. Then the
alternatives around a bar are read independently of each other (`Definition.read_append`), and so
are the symbols around a blank (`Production.read_append`). A part between parentheses is a group
exactly if it is nested, and otherwise an unknown symbol (`Symbol.read_enclosed_of_not_nested`).
Where a part cannot be read, the fault is that of the whole. All this together is
`Definition.read_composes`.
-/

namespace Bnf

namespace Nesting

/-- The balance counts the opening parentheses and takes off the closing ones. -/
theorem balance_eq_count (text : List Char) :
    balance text = (text.count '(' : Int) - (text.count ')' : Int) := by
  induction text with
  | nil => rfl
  | cons c rest ih =>
      rw [balance_cons, ih]
      by_cases hopen : c = '('
      · subst hopen
        simp [step]
        omega
      · by_cases hclose : c = ')'
        · subst hclose
          simp [step]
          omega
        · simp [step, hopen, hclose]

/-- The balance is zero if equally many parentheses are opened and closed. -/
theorem balance_eq_zero_iff {text : List Char} :
    balance text = 0 ↔ text.count '(' = text.count ')' := by
  rw [balance_eq_count]
  omega

/-- What stands between parentheses is not enclosed by them if it is not nested. -/
theorem interior_of_not_nested {inside : List Char} (h : ¬ Nested inside) :
    interior? ('(' :: (inside ++ [')'])) = none := by
  rw [Option.eq_none_iff_forall_ne_some]
  intro other hother
  obtain ⟨htext, hnested⟩ := interior_eq_some_iff.1 hother
  have hsame : inside = other := List.append_cancel_right (List.cons.inj htext).2
  exact h (hsame ▸ hnested)

end Nesting

open Nesting

section

variable [UnicodeData]

/-- On the two sides of a bar at balance zero, a definition is read independently. -/
theorem Definition.read_append {first : List Char} (h : balance first = 0) (second : List Char) :
    Definition.read (first ++ '|' :: second) = do
      let before ← Definition.read first
      let after ← Definition.read second
      return before ++ after := by
  simp only [Definition.read_eq_mapM, alternatives_append h, List.mapM_append]

/-- On the two sides of a blank at balance zero, a production is read independently. -/
theorem Production.read_append {first : List Char} (h : balance first = 0) {blank : Char}
    (hblank : Text.isBlank blank = true) (second : List Char) :
    Production.read (first ++ blank :: second) = do
      let before ← Production.read first
      let after ← Production.read second
      return before ++ after := by
  simp only [Production.read, tokens_append h hblank, List.mapM_append]

/-- A text between parentheses ends with a parenthesis, and so without a modifier. -/
theorem Symbol.tree_enclosed (inside : List Char) :
    Symbol.tree ('(' :: (inside ++ [')'])) = Symbol.treeBase ('(' :: (inside ++ [')'])) := by
  have hlast : ('(' :: (inside ++ [')'])).getLast? = some ')' :=
    List.getLast?_concat (l := '(' :: inside)
  refine Symbol.tree_of_last ?_ ?_
  · rw [hlast]
    decide
  · rw [hlast]
    decide

/-- What is not nested is an unknown symbol, although parentheses stand around it. -/
theorem Symbol.read_enclosed_of_not_nested {inside : List Char} (h : ¬ Nested inside) :
    Symbol.read ('(' :: (inside ++ [')'])) =
      .ok (.unknown (String.ofList ('(' :: (inside ++ [')'])))) := by
  have hset : CharSet.read ('(' :: (inside ++ [')'])) = .error .malformed := by
    rw [CharSet.read, Text.delimited_eq_none (by decide)]
  have htree : Symbol.tree ('(' :: (inside ++ [')'])) =
      .unknown (String.ofList ('(' :: (inside ++ [')']))) := by
    rw [Symbol.tree_enclosed, Symbol.treeBase,
      Symbol.treeOfBase_of_none (Text.delimited_eq_none (by decide) _)
        (Text.delimited_eq_none (by decide) _) (interior_of_not_nested h), CharSet.read?, hset]
    rfl
  rw [Symbol.read_eq_checked, htree, Symbol.overflows, String.toList_ofList, CharSet.overflows,
    hset]
  rfl

/-- What is nested and stands between parentheses is read as a group. -/
theorem Symbol.read_enclosed_of_nested {inside : List Char} (h : Nested inside) :
    Symbol.read ('(' :: (inside ++ [')'])) = (Definition.read inside).map .group := by
  rw [Symbol.read_eq_checked, Symbol.tree_enclosed, Symbol.tree_base_group h,
    Definition.read_eq_checked, map_checked]
  rfl

/-- A modifier modifies what stands between parentheses. -/
theorem Symbol.read_modified (inside : List Char) :
    Symbol.read ('(' :: (inside ++ [')']) ++ ['?']) =
        (Symbol.read ('(' :: (inside ++ [')']))).map .optional ∧
      Symbol.read ('(' :: (inside ++ [')']) ++ ['*']) =
        (Symbol.read ('(' :: (inside ++ [')']))).map .repeated := by
  simp only [Symbol.read_eq_checked, Symbol.tree_question, Symbol.tree_star, Symbol.tree_enclosed,
    map_checked]
  exact ⟨rfl, rfl⟩

/-- A bar cuts a definition, and a blank a production, into parts that are read independently, if
there are as many opening as closing parentheses before it. A text between parentheses is a group,
namely the one of the definition that the text writes, exactly if no part from its beginning closes
more parentheses than it opens, the whole closes as many, and the definition can be read. If it
cannot, its fault is the fault of the group. If the parentheses do not match, the text with its
parentheses is an unknown symbol. A modifier behind it modifies whichever of the two it is. -/
theorem Definition.read_composes :
    (∀ text, balance text = (text.count '(' : Int) - (text.count ')' : Int)) ∧
    (∀ first second, balance first = 0 →
      Definition.read (first ++ '|' :: second) = do
        let before ← Definition.read first
        let after ← Definition.read second
        return before ++ after) ∧
    (∀ first blank second, balance first = 0 → Text.isBlank blank = true →
      Production.read (first ++ blank :: second) = do
        let before ← Production.read first
        let after ← Production.read second
        return before ++ after) ∧
    ∀ inside,
      let enclosed := '(' :: (inside ++ [')'])
      ((∃ alternatives, Symbol.read enclosed = .ok (.group alternatives)) ↔
        ((∀ before, before <+: inside → 0 ≤ balance before) ∧ balance inside = 0) ∧
          ∃ definition, Definition.read inside = .ok definition) ∧
      (Nested inside → Symbol.read enclosed = (Definition.read inside).map .group) ∧
      (¬ Nested inside → Symbol.read enclosed = .ok (.unknown (String.ofList enclosed))) ∧
      Symbol.read (enclosed ++ ['?']) = (Symbol.read enclosed).map .optional ∧
      Symbol.read (enclosed ++ ['*']) = (Symbol.read enclosed).map .repeated := by
  refine ⟨balance_eq_count, fun first second h => Definition.read_append h second,
    fun first blank second h hblank => Production.read_append h hblank second, ?_⟩
  intro inside enclosed
  refine ⟨?_, Symbol.read_enclosed_of_nested, Symbol.read_enclosed_of_not_nested,
    Symbol.read_modified inside⟩
  have hnested : ((∀ before, before <+: inside → 0 ≤ balance before) ∧ balance inside = 0) ↔
      Nested inside := ⟨fun h => ⟨h.1, h.2⟩, fun h => ⟨h.prefix_nonneg, h.balanced⟩⟩
  rw [hnested]
  by_cases h : Nested inside
  · rw [show Symbol.read enclosed = _ from Symbol.read_enclosed_of_nested h]
    cases Definition.read inside <;> simp [Except.map, h]
  · rw [show Symbol.read enclosed = _ from Symbol.read_enclosed_of_not_nested h]
    simp [h]

end

/-- A part whose depth comes below zero before its bar and its blank, a group, and a text that
closes its first parenthesis too early. -/
theorem Definition.read_composes_unnested :
    balance ")\"a\"(".toList = 0 ∧
      Definition.read (")\"a\"(".toList ++ '|' :: "<b>".toList) =
        .ok [[.unknown ")\"a\"("], [.reference "b"]] ∧
    Text.isBlank '\t' = true ∧
      Production.read (")\"a\"(".toList ++ '\t' :: "<b>".toList) =
        .ok [.unknown ")\"a\"(", .reference "b"] ∧
    Nested "<b>".toList ∧
      Symbol.read ('(' :: ("<b>".toList ++ [')'])) = .ok (.group [[.reference "b"]]) ∧
    ¬ Nested ")(".toList ∧ Symbol.read ('(' :: (")(".toList ++ [')'])) = .ok (.unknown "()()") := by
  have hbalance : balance ")\"a\"(".toList = 0 := by decide
  have hnested : Nested "<b>".toList := nested_of_forall (by simp)
  have hunnested : ¬ Nested ")(".toList := fun h =>
    absurd (h.prefix_nonneg [')'] (by decide)) (by decide)
  obtain ⟨-, hbar, hblank, henclosed⟩ := Definition.read_composes
  refine ⟨hbalance, ?_, rfl, ?_, hnested, ?_, hunnested, (henclosed _).2.2.1 hunnested⟩
  · rw [hbar _ _ hbalance]
    cbv
  · rw [hblank _ _ _ hbalance rfl]
    cbv
  · rw [(henclosed _).2.1 hnested]
    cbv

/-- A text may be nested without being read as a group between parentheses: one of its symbols may
name a code point that is too large. -/
theorem Symbol.enclosed_not_read :
    let inside := "[\\U80000000]".toList
    ((∀ before, before <+: inside → 0 ≤ balance before) ∧ balance inside = 0) ∧
      Symbol.read ('(' :: (inside ++ [')'])) = .error .codePointOverflow ∧
      ¬ ∀ inside : List Char,
        (∃ alternatives, Symbol.read ('(' :: (inside ++ [')'])) = .ok (.group alternatives)) ↔
          (∀ before, before <+: inside → 0 ≤ balance before) ∧ balance inside = 0 := by
  have hnested : Nested "[\\U80000000]".toList := nested_of_forall (by simp)
  have hread : Symbol.read ('(' :: ("[\\U80000000]".toList ++ [')'])) =
      .error .codePointOverflow := by cbv
  refine ⟨⟨hnested.prefix_nonneg, hnested.balanced⟩, hread, fun h => ?_⟩
  obtain ⟨alternatives, hgroup⟩ := (h _).2 ⟨hnested.prefix_nonneg, hnested.balanced⟩
  rw [hread] at hgroup
  cases hgroup

end Bnf
