import Bnf.Proofs.ChangeLog
import Bnf.UnicodeData.Version14
import Mathlib

/-!
# Merging grammars

Merging inserts the definitions of another grammar one after the other, and what is put under a name
that is there already keeps the place of the name. So it makes no difference whether definitions are
first collected in a grammar of their own and then merged, or inserted at once, as long as all of
them can be read: `merge_ofSources`. A merge that faults has inserted the definitions up to the
first that cannot be read, and doing it again inserts the same ones once more. The laws of merging
follow, with the order of the definitions and of the rules: `merging_laws`.
-/

namespace Bnf.Grammar

section

variable [UnicodeData] {grammar other third : Grammar} {sources : List (String × String)}

/-! ## Collecting definitions -/

/-- The definitions that were collected are among those that were inserted. -/
theorem readable_ofSources (h : ∀ entry ∈ sources, Definition.Readable entry.2) :
    ∀ entry ∈ (ofSources sources).sources, Definition.Readable entry.2 := by
  have hdefinitions : (ofSources sources).definitions = Dict.empty.putAll sources := by
    rw [ofSources, insertAll_of_readable h]
    rfl
  rw [Grammar.sources, hdefinitions]
  clear hdefinitions
  induction sources using List.reverseRecOn with
  | nil => exact List.forall_mem_nil _
  | append_singleton rest last ih =>
      intro entry hentry
      rw [Dict.putAll_concat, ← Dict.find_eq_some_iff, Dict.find_put] at hentry
      split at hentry
      · rw [← Option.some.inj hentry]
        exact h last (by simp)
      · refine ih (fun other hother => h other (List.mem_append_left _ hother)) entry ?_
        exact Dict.find_eq_some_iff.1 hentry

/-- Merging the grammar that definitions make up is inserting the definitions, if all of them can be
read. -/
theorem merge_ofSources (h : ∀ entry ∈ sources, Definition.Readable entry.2) (grammar : Grammar) :
    grammar.merge (ofSources sources) = grammar.insertAll sources := by
  have hcollected := insertAll_of_readable h Grammar.empty
  rw [merge, insertAll_of_readable (readable_ofSources h), insertAll_of_readable h,
    Grammar.sources, ofSources, hcollected]
  dsimp only
  have hdefinitions :
      grammar.definitions.putAll (Grammar.empty.definitions.putAll sources).entries =
      grammar.definitions.putAll sources :=
    Dict.putAll_putAll grammar.definitions Dict.empty sources
  have htrees : trees (Grammar.empty.definitions.putAll sources).entries =
      (Dict.empty.putAll (trees sources)).entries :=
    congrArg Dict.entries (Dict.map_putAll _ Dict.empty sources)
  have hempty : (Grammar.empty.definitions.putAll sources).entries = [] ↔ sources = [] := by
    constructor
    · intro hnone
      cases sources with
      | nil => rfl
      | cons entry rest =>
          have hname : entry.1 ∈ (Grammar.empty.definitions.putAll (entry :: rest)).names :=
            Dict.mem_names_putAll.2 (.inr List.mem_cons_self)
          rw [Dict.names, hnone] at hname
          cases hname
    · rintro rfl
      rfl
  rw [hdefinitions, htrees, Dict.putAll_putAll, if_congr hempty rfl rfl]
  rfl

/-! ## Merging again -/

/-- Merging a grammar a second time changes nothing and ends as the first time, also in a fault. -/
theorem merge_merge_self (grammar other : Grammar) :
    (grammar.merge other).2.merge other = grammar.merge other := by
  have hattempted : ((attempted other.sources).map Prod.fst).Nodup :=
    other.definitions.nodup.sublist ((List.take_sublist _ _).map _)
  have haccepted : ((trees (accepted other.sources)).map Prod.fst).Nodup := by
    rw [trees, List.map_map]
    exact other.definitions.nodup.sublist ((List.takeWhile_sublist _).map _)
  refine Prod.ext ?_ ?_
  · rw [merge, merge, insertAll_fst, insertAll_fst]
  · rw [merge, insertAll_snd, merge, insertAll_snd]
    dsimp only
    rw [Dict.putAll_eq_self fun entry hentry => Dict.find_putAll_of_nodup hattempted hentry _,
      Dict.putAll_eq_self fun entry hentry => Dict.find_putAll_of_nodup haccepted hentry _]
    split <;> rfl

/-- A consistent grammar merged into itself keeps its definitions and its rules, also if the merge
faults. -/
theorem Consistent.merge_self (h : grammar.Consistent) :
    (grammar.merge grammar).2.definitions = grammar.definitions ∧
      (grammar.merge grammar).2.rules = grammar.rules := by
  rw [merge, insertAll_snd]
  refine ⟨Dict.putAll_eq_self fun entry hentry => ?_, Dict.putAll_eq_self fun rule hrule => ?_⟩
  · exact Dict.find_eq_some_iff.2 (mem_of_mem_attempted hentry)
  · obtain ⟨entry, hentry, rfl⟩ := List.mem_map.1 hrule
    obtain ⟨hmem, hreadable⟩ := mem_of_mem_accepted hentry
    exact h.current _ _ (Dict.find_eq_some_iff.2 hmem) hreadable

/-- Merging one grammar and then another is merging a copy of the first into which the other was
merged, if all definitions of both can be read. -/
theorem merge_merge (hother : ∀ entry ∈ other.sources, Definition.Readable entry.2)
    (hthird : ∀ entry ∈ third.sources, Definition.Readable entry.2) (grammar : Grammar) :
    ∃ copy, other.rebuild = .ok copy ∧
      (grammar.merge other).2.merge third = grammar.merge (copy.merge third).2 := by
  refine ⟨ofSources other.sources, construct_eq_ok_iff.2 ⟨hother, rfl⟩, ?_⟩
  have hboth : ∀ entry ∈ other.sources ++ third.sources, Definition.Readable entry.2 :=
    List.forall_mem_append.2 ⟨hother, hthird⟩
  have happend (first : Grammar) : first.insertAll (other.sources ++ third.sources) =
      (first.insertAll other.sources).2.insertAll third.sources := by
    rw [insertAll_append, insertAll_of_readable hother]
  have hcollected : ((ofSources other.sources).merge third).2 =
      ofSources (other.sources ++ third.sources) := by
    rw [ofSources, ofSources, happend, merge]
  rw [hcollected, merge_ofSources hboth, happend]
  rfl

/-- After every sequence of steps, and for all grammars of the workspace. A merge comes to its end
exactly if all definitions of the grammar that is merged can be read. Merging a grammar twice is
merging it once, a grammar merged into itself keeps its definitions and its rules and their order,
and a copy is the grammar without rules into which the grammar was merged, and has its definitions
and its rules. If all definitions can be read, merging one grammar and then another is merging a
copy of the first into which the other was merged, and loading lines is merging what a grammar
without rules has after loading them. -/
theorem merging_laws (steps : List Workspace.Step) (place origin further : String)
    (lines : List (List Char)) :
    let grammar := (Workspace.run steps place).grammar
    let other := (Workspace.run steps origin).grammar
    let third := (Workspace.run steps further).grammar
    ((grammar.merge other).1 = .ok () ↔
      ∀ entry ∈ other.sources, Definition.Readable entry.2) ∧
    (grammar.merge other).2.merge other = grammar.merge other ∧
    ((grammar.merge grammar).2.definitions = grammar.definitions ∧
      (grammar.merge grammar).2.rules = grammar.rules) ∧
    (∀ copy, grammar.rebuild = .ok copy ↔ empty.merge grammar = (.ok (), copy)) ∧
    (∀ copy, grammar.rebuild = .ok copy →
      copy.definitions = grammar.definitions ∧ copy.definition? = grammar.definition?) ∧
    ((∀ entry ∈ other.sources, Definition.Readable entry.2) →
      (∀ entry ∈ third.sources, Definition.Readable entry.2) →
        ∃ copy, other.rebuild = .ok copy ∧
          (grammar.merge other).2.merge third = grammar.merge (copy.merge third).2) ∧
    ((∀ entry ∈ lines.filterMap RuleLine.written?, Definition.Readable entry.2) →
      (grammar.load lines).grammar = (grammar.merge (empty.load lines).grammar).2) := by
  intro grammar other third
  have hconsistent : grammar.Consistent := (Workspace.accurate_run steps place).consistent
  refine ⟨insertAll_fst_eq_ok_iff grammar other.sources, merge_merge_self grammar other,
    hconsistent.merge_self, fun copy => ?_, fun copy hcopy => hconsistent.definition_rebuild hcopy,
    fun hother hthird => merge_merge hother hthird grammar, fun hlines => ?_⟩
  · rw [rebuild, construct_eq_ok_iff, merge, Prod.ext_iff, insertAll_fst_eq_ok_iff]
    rfl
  · rw [(load_eq grammar lines).1, (load_eq empty lines).1]
    exact congrArg Prod.snd (merge_ofSources hlines grammar).symm

end

/-- Three grammars that have names in common. -/
def visits : List Workspace.Step :=
  [.construct "home" [("greeting", "\"hello\" <name>"), ("name", "\"you\"")],
   .construct "guest" [("farewell", "\"bye\""), ("greeting", "\"good\" [0-9]")],
   .construct "late" [("name", "\"me\""), ("farewell", "<name>?")]]

/-- Lines that write what the late guest has. -/
def rewriting : List (List Char) :=
  ["<name> ::= \"me\"".toList, "<farewell> ::= <name>?".toList]

/-- The guest and the late guest are merged into a grammar one after the other, or together, and the
lines of the late guest are loaded or merged. -/
theorem merging_laws_visits :
    let home := (Workspace.run visits "home").grammar
    let guest := (Workspace.run visits "guest").grammar
    let late := (Workspace.run visits "late").grammar
    (home.merge guest).1 = .ok () ∧
    (∃ copy, guest.rebuild = .ok copy ∧
      (home.merge guest).2.merge late = home.merge (copy.merge late).2) ∧
    (home.load rewriting).grammar = (home.merge (empty.load rewriting).grammar).2 := by
  have hguest : ∀ entry ∈ (Workspace.run visits "guest").grammar.sources,
      Definition.Readable entry.2 := by
    have hsources : (Workspace.run visits "guest").grammar.sources =
        [("farewell", "\"bye\""), ("greeting", "\"good\" [0-9]")] := by cbv
    rw [hsources, List.forall_mem_cons, List.forall_mem_singleton, Definition.readable_iff,
      Definition.readable_iff]
    constructor <;> cbv
  have hlate : ∀ entry ∈ [("name", "\"me\""), ("farewell", "<name>?")],
      Definition.Readable entry.2 := by
    rw [List.forall_mem_cons, List.forall_mem_singleton, Definition.readable_iff,
      Definition.readable_iff]
    constructor <;> cbv
  have hsources : (Workspace.run visits "late").grammar.sources =
      [("name", "\"me\""), ("farewell", "<name>?")] := by cbv
  have hwritten : rewriting.filterMap RuleLine.written? =
      [("name", "\"me\""), ("farewell", "<name>?")] := by cbv
  obtain ⟨hends, -, -, -, -, htogether, hload⟩ := merging_laws visits "home" "guest" "late" rewriting
  exact ⟨hends.2 hguest, htogether hguest (hsources ▸ hlate), hload (hwritten ▸ hlate)⟩

/-- A name keeps its place from the first merge and has its definition from the last one. -/
example :
    (((ofSources [("a", "1"), ("b", "2")]).merge (ofSources [("c", "3"), ("a", "4")])).2.merge
      (ofSources [("d", "5"), ("c", "6"), ("b", "7")])).2.sources =
        [("a", "4"), ("b", "7"), ("c", "6"), ("d", "5")] := by
  cbv

/-- Lines of which the second overwrites the first with a definition that cannot be read. -/
def overwriting : List (List Char) :=
  ["<symbol> ::= \"a\"".toList, "<symbol> ::= [\\U80000000]".toList]

/-- Loading these lines leaves a rule, and merging what they leave does not. -/
theorem load_ne_merge_overwriting :
    (empty.load overwriting).grammar.rules.names = ["symbol"] ∧
    (empty.merge (empty.load overwriting).grammar).2.rules.names = [] := by
  constructor <;> cbv

end Bnf.Grammar
