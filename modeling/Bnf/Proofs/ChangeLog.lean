import Bnf.Proofs.ReachableRules
import Bnf.Proofs.RuleLine
import Bnf.UnicodeData.Version14
import Mathlib

/-!
# What a history of changes decides

Everything that can be done with grammars comes down to single changes of names: a name is added
with a source, or it is removed. The log of these changes decides what the definitions of a grammar
are, and the same log without the additions that cannot be read decides what the rules are. Read
`ChangeLog.Tells` first: the value of a name is the one that its last change has left, and the names
stand in the order in which they arrived, that is were added while they were absent. Putting a value
into a dictionary keeps this and so does removing a name, because a change that is logged moves the
arrival of no other name (`arrived_at_append`).

`changes_decide` is the result for grammars that are worked on side by side, of which one may be
merged into another or into itself. As long as all additions can be read, the rules have the names
of the definitions, in the same order. Behind an addition that cannot be read, the two part.
-/

namespace Bnf

/-! ## Logs -/

/-- A change of one name. -/
inductive Change (α : Type) where
  /-- The name is given this value, whether it had one before or not. -/
  | added (name : String) (value : α)
  /-- The name has no value any more, if it had one. -/
  | removed (name : String)
  deriving Repr, DecidableEq

/-- Changes in the order in which they were made. -/
abbrev ChangeLog (α : Type) := List (Change α)

section

variable {α : Type}

/-- The name that a change is about. -/
def Change.name : Change α → String
  | added name _ => name
  | removed name => name

/-- The value that a change leaves to its name. -/
def Change.value? : Change α → Option α
  | added _ value => some value
  | removed _ => none

/-- The additions of names with their values, one after the other. -/
def additions (entries : List (String × α)) : ChangeLog α :=
  entries.map fun (name, value) => .added name value

namespace ChangeLog

/-- The value that the last change of a name has left, if there was a change and it left one. -/
def value? (log : ChangeLog α) (name : String) : Option α :=
  (log.reverse.find? fun change => change.name == name).bind Change.value?

/-- A name was added at this moment of a log while it was absent, and has not been removed since. -/
structure ArrivedAt (log : ChangeLog α) (name : String) (moment : Nat) : Prop where
  added : ∃ value, log[moment]? = some (.added name value)
  absent : value? (log.take moment) name = none
  kept : .removed name ∉ log.drop moment

/-- Of two names, the first has arrived before the second. -/
def ArrivedBefore (log : ChangeLog α) (first second : String) : Prop :=
  ∀ moment later, ArrivedAt log first moment → ArrivedAt log second later → moment < later

variable {log : ChangeLog α}

@[simp]
theorem value_nil (name : String) : value? ([] : ChangeLog α) name = none := rfl

/-- One more change decides about its own name. -/
theorem value_append (change : Change α) (name : String) :
    value? (log ++ [change]) name =
      if change.name = name then change.value? else value? log name := by
  rw [value?, List.reverse_append, List.reverse_singleton, List.singleton_append, List.find?_cons]
  by_cases hname : change.name = name
  · rw [beq_iff_eq.2 hname, if_pos hname, Option.bind_some]
  · rw [beq_false_of_ne hname, if_neg hname, value?]

/-- After one more change, a name has arrived when it had before, unless the change removes it. If
it was absent, an addition makes it arrive now. -/
theorem arrived_at_append {change : Change α} {name : String} {moment : Nat} :
    ArrivedAt (log ++ [change]) name moment ↔
      (ArrivedAt log name moment ∧ change ≠ .removed name) ∨
        (moment = log.length ∧ value? log name = none ∧ ∃ value, change = .added name value) := by
  rcases Nat.lt_trichotomy moment log.length with hlt | rfl | hgt
  · have htake : (log ++ [change]).take moment = log.take moment :=
      List.take_append_of_le_length hlt.le
    have hdrop : (log ++ [change]).drop moment = log.drop moment ++ [change] :=
      List.drop_append_of_le_length hlt.le
    have hget : (log ++ [change])[moment]? = log[moment]? := List.getElem?_append_left hlt
    constructor
    · rintro ⟨hadded, habsent, hkept⟩
      rw [hget] at hadded
      rw [htake] at habsent
      rw [hdrop, List.mem_append, List.mem_singleton, not_or] at hkept
      exact .inl ⟨⟨hadded, habsent, hkept.1⟩, Ne.symm hkept.2⟩
    · rintro (⟨⟨hadded, habsent, hkept⟩, hchange⟩ | ⟨heq, -⟩)
      · refine ⟨by rwa [hget], by rwa [htake], ?_⟩
        rw [hdrop, List.mem_append, List.mem_singleton, not_or]
        exact ⟨hkept, Ne.symm hchange⟩
      · omega
  · constructor
    · rintro ⟨⟨value, hadded⟩, habsent, -⟩
      rw [List.getElem?_concat_length, Option.some.injEq] at hadded
      rw [List.take_left] at habsent
      exact .inr ⟨rfl, habsent, value, hadded⟩
    · rintro (⟨⟨⟨value, hadded⟩, -, -⟩, -⟩ | ⟨-, habsent, value, rfl⟩)
      · simp at hadded
      · exact ⟨⟨value, by simp⟩, by simpa using habsent, by simp⟩
  · constructor
    · rintro ⟨⟨value, hadded⟩, -, -⟩
      have hlength : (log ++ [change]).length ≤ moment := by simpa using hgt
      rw [List.getElem?_eq_none hlength] at hadded
      cases hadded
    · rintro (⟨⟨⟨value, hadded⟩, -, -⟩, -⟩ | ⟨rfl, -⟩)
      · rw [List.getElem?_eq_none hgt.le] at hadded
        cases hadded
      · omega

/-- The names with a value are those that have arrived. -/
theorem exists_arrived_at_iff {name : String} :
    (∃ moment, ArrivedAt log name moment) ↔ (value? log name).isSome := by
  induction log using List.reverseRecOn with
  | nil =>
      constructor
      · rintro ⟨moment, ⟨value, hadded⟩, -, -⟩
        simp at hadded
      · intro h
        simp at h
  | append_singleton log change ih =>
      simp only [arrived_at_append, value_append, exists_or, exists_and_right, ih]
      cases change with
      | added other value =>
          by_cases hname : other = name
          · cases ChangeLog.value? log name <;> simp [Change.name, Change.value?, hname]
          · simp [Change.name, hname]
      | removed other =>
          by_cases hname : other = name <;> simp [Change.name, Change.value?, hname]

/-! ## What a log tells of a dictionary -/

/-- The log tells what the dictionary is: which value each name has, and in which order the names
stand. -/
structure Tells (log : ChangeLog α) (dict : Dict α) : Prop where
  find_eq : ∀ name, dict.find? name = value? log name
  ordered : dict.names.Pairwise (ArrivedBefore log)

variable {dict : Dict α}

theorem tells_nil : Tells [] (Dict.empty : Dict α) :=
  ⟨fun _ => rfl, List.Pairwise.nil⟩

/-- A name is there exactly if its last change left it a value. -/
theorem Tells.mem_names_iff (h : Tells log dict) {name : String} :
    name ∈ dict.names ↔ (value? log name).isSome := by
  rw [Dict.mem_names_iff, h.find_eq]

/-- A change does not move the arrival of names that were there before it. -/
theorem Tells.before_append (h : Tells log dict) {change : Change α} {names : List String}
    (hnames : names.Sublist dict.names) : names.Pairwise (ArrivedBefore (log ++ [change])) := by
  have hpresent : ∀ name ∈ names, value? log name ≠ none := fun name hname =>
    Option.isSome_iff_ne_none.1 (h.mem_names_iff.1 (hnames.subset hname))
  refine (h.ordered.sublist hnames).imp_of_mem fun {first second} hfirst hsecond hbefore => ?_
  intro moment later hmoment hlater
  rcases arrived_at_append.1 hmoment with ⟨hmoment, -⟩ | ⟨-, habsent, -⟩
  · rcases arrived_at_append.1 hlater with ⟨hlater, -⟩ | ⟨-, habsent, -⟩
    · exact hbefore moment later hmoment hlater
    · exact absurd habsent (hpresent second hsecond)
  · exact absurd habsent (hpresent first hfirst)

/-- Putting a value in is told by the log with one more addition. -/
theorem Tells.put (h : Tells log dict) (name : String) (value : α) :
    Tells (log ++ [.added name value]) (dict.put name value) where
  find_eq target := by
    rw [Dict.find_put, value_append, Change.name, h.find_eq]
    exact if_congr eq_comm rfl rfl
  ordered := by
    rw [Dict.names_put]
    split
    · exact h.before_append (List.Sublist.refl _)
    · -- The name was absent, so it arrives after all the others.
      rename_i hnew
      have habsent : value? log name = none := by
        rwa [h.mem_names_iff, Option.not_isSome_iff_eq_none] at hnew
      refine List.pairwise_append.2
        ⟨h.before_append (List.Sublist.refl _), List.pairwise_singleton _ _, ?_⟩
      intro first hfirst second hsecond moment later hmoment hlater
      rw [List.mem_singleton] at hsecond
      subst hsecond
      have hpresent := h.mem_names_iff.1 hfirst
      rcases arrived_at_append.1 hmoment with ⟨⟨⟨other, hadded⟩, -, -⟩, -⟩ | ⟨-, hnone, -⟩
      · rcases arrived_at_append.1 hlater with ⟨hlater, -⟩ | ⟨rfl, -, -⟩
        · have hsome := exists_arrived_at_iff.1 ⟨later, hlater⟩
          rw [habsent] at hsome
          cases hsome
        · exact (List.getElem?_eq_some_iff.1 hadded).1
      · rw [hnone] at hpresent
        cases hpresent

/-- Removing a name is told by the log with one more removal. -/
theorem Tells.remove (h : Tells log dict) (name : String) :
    Tells (log ++ [.removed name]) (dict.remove name) where
  find_eq target := by
    rw [Dict.find_remove, value_append, Change.name, h.find_eq]
    exact if_congr eq_comm rfl rfl
  ordered := by
    rw [Dict.names_remove]
    exact h.before_append List.filter_sublist

end ChangeLog

end

namespace Grammar

variable [UnicodeData]

/-! ## What a log tells of a grammar -/

/-- The change of the rules to which a change of the definitions comes, unless the definition cannot
be read. -/
def compiled? : Change String → Option (Change Definition)
  | .added name source => (Definition.read source.toList).toOption.map (.added name)
  | .removed name => some (.removed name)

/-- The changes of the rules to which changes of the definitions come. -/
def compiled (log : ChangeLog String) : ChangeLog Definition :=
  log.filterMap compiled?

/-- All definitions that were added can be read. -/
def AllReadable (log : ChangeLog String) : Prop :=
  ∀ name source, .added name source ∈ log → Definition.Readable source

/-- The log tells what the grammar is: the definitions are those of the log, and the rules those of
the log without the additions that cannot be read. If there are none, the rules are the definitions
as they read. -/
structure Told (log : ChangeLog String) (grammar : Grammar) : Prop where
  consistent : grammar.Consistent
  definitions : log.Tells grammar.definitions
  rules : (compiled log).Tells grammar.rules
  synced : AllReadable log →
    grammar.rules = grammar.definitions.map fun source => Definition.tree source.toList

variable {log : ChangeLog String} {grammar : Grammar}

theorem told_nil : Told [] Grammar.empty where
  consistent := consistent_invariant.empty
  definitions := ChangeLog.tells_nil
  rules := ChangeLog.tells_nil
  synced _ := rfl

theorem compiled_append (change : Change String) :
    compiled (log ++ [change]) = compiled log ++ (compiled? change).toList := by
  rw [compiled, List.filterMap_append]
  cases hchange : compiled? change with
  | none => rw [List.filterMap_cons_none hchange]; rfl
  | some _ => rw [List.filterMap_cons_some hchange]; rfl

theorem AllReadable.of_append {later : ChangeLog String} (h : AllReadable (log ++ later)) :
    AllReadable log :=
  fun name source hadded => h name source (List.mem_append_left later hadded)

/-- An insertion is told by the log with one more addition. -/
theorem Told.insert (h : Told log grammar) (name source : String) :
    Told (log ++ [.added name source]) (grammar.insert name source).2 where
  consistent := h.consistent.insert name source
  definitions := by
    rw [definitions_insert]
    exact h.definitions.put name source
  rules := by
    rw [compiled_append, compiled?]
    by_cases hsource : Definition.Readable source
    · rw [insert_of_readable hsource, hsource.read_eq]
      exact h.rules.put name _
    · rw [insert_of_not_readable hsource, Definition.read_of_not_readable hsource]
      exact (List.append_nil (compiled log)).symm ▸ h.rules
  synced hreadable := by
    have hsource : Definition.Readable source :=
      hreadable name source (List.mem_append_right log (List.mem_singleton.2 rfl))
    rw [insert_of_readable hsource, Dict.map_put, h.synced hreadable.of_append]

/-- An erasure is told by the log with one more removal. -/
theorem Told.erase (h : Told log grammar) (name : String) :
    Told (log ++ [.removed name]) (grammar.erase name).2 where
  consistent := h.consistent.erase name
  definitions := by
    rw [definitions_erase]
    exact h.definitions.remove name
  rules := by
    rw [compiled_append, h.consistent.rules_erase]
    exact h.rules.remove name
  synced hreadable := by
    rw [h.consistent.rules_erase, definitions_erase, Dict.map_remove,
      h.synced hreadable.of_append]

/-- Insertions one after the other are told by the log with the additions up to the first that
faults. -/
theorem Told.insertAll (h : Told log grammar) (sources : List (String × String)) :
    Told (log ++ additions (attempted sources)) (grammar.insertAll sources).2 := by
  induction sources generalizing log grammar with
  | nil =>
      change Told (log ++ []) grammar
      rwa [List.append_nil]
  | cons entry rest ih =>
      have hinsert := h.insert entry.1 entry.2
      rw [attempted_cons, Grammar.insertAll]
      by_cases hentry : Definition.Readable entry.2
      · rw [insert_of_readable hentry] at hinsert ⊢
        rw [if_pos hentry]
        have hrest := ih hinsert
        rwa [List.append_assoc] at hrest
      · rw [insert_of_not_readable hentry] at hinsert ⊢
        rw [if_neg hentry]
        exact hinsert

/-- A log goes on telling what a grammar is as long as the definitions and the rules stay. -/
theorem Told.congr {other : Grammar} (h : Told log grammar)
    (hdefinitions : other.definitions = grammar.definitions)
    (hrules : other.rules = grammar.rules) :
    Told log other where
  consistent := h.consistent.congr hdefinitions hrules
  definitions := hdefinitions ▸ h.definitions
  rules := hrules ▸ h.rules
  synced hreadable := by
    rw [hrules, hdefinitions]
    exact h.synced hreadable

/-! ## Operations and their changes -/

/-- The changes that an operation makes, also if it faults. A line that does not have the form of a
rule changes nothing, and neither does a question. -/
def Operation.changes : Operation → ChangeLog String
  | .insert name source => [.added name source]
  | .erase name => [.removed name]
  | .merge other => additions (attempted other.sources)
  | .readLine line => additions (attempted (RuleLine.written? line.toList).toList)
  | .load lines => additions (attempted (lines.filterMap RuleLine.written?))
  | .rebuild | .cycleFrom _ | .validate _ _ => []

/-- A grammar with the log of its changes since it was made. -/
structure Chronicle where
  grammar : Grammar
  log : ChangeLog String

namespace Chronicle

/-- The chronicle of a new grammar of these definitions, if it can be made. -/
def construct? (sources : List (String × String)) : Option Chronicle :=
  (Grammar.construct sources).toOption.map fun grammar => ⟨grammar, additions sources⟩

/-- The chronicle after one more operation on the grammar. The log of a copy begins with the
copy. -/
def after (chronicle : Chronicle) : Operation → Chronicle
  | .rebuild => (construct? chronicle.grammar.sources).getD chronicle
  | operation => ⟨operation.apply chronicle.grammar, chronicle.log ++ operation.changes⟩

/-- The log tells what the grammar is. -/
def Accurate (chronicle : Chronicle) : Prop :=
  Told chronicle.log chronicle.grammar

variable {chronicle : Chronicle}

/-- A chronicle of a new grammar is accurate. -/
theorem accurate_of_construct {sources : List (String × String)}
    (h : construct? sources = some chronicle) : chronicle.Accurate := by
  obtain ⟨grammar, hconstruct, rfl⟩ := Option.map_eq_some_iff.1 h
  rw [construct_eq] at hconstruct
  split at hconstruct
  · rename_i hsources
    cases hconstruct
    have htold := told_nil.insertAll sources
    rwa [attempted_of_readable hsources] at htold
  · cases hconstruct

/-- An operation leaves a chronicle accurate. -/
theorem Accurate.after (h : chronicle.Accurate) (operation : Operation) :
    (chronicle.after operation).Accurate := by
  unfold Accurate at h
  cases operation with
  | insert name source => exact h.insert name source
  | erase name => exact h.erase name
  | merge other => exact h.insertAll other.sources
  | readLine line =>
      rw [Chronicle.after, Accurate, apply_read_line]
      · exact h.insertAll _
      · simp
  | load lines =>
      rw [Chronicle.after, Accurate, apply_load]
      · exact h.insertAll _
      · simp
  | rebuild =>
      rw [Chronicle.after]
      cases hcopy : construct? chronicle.grammar.sources with
      | none => exact h
      | some copy => exact accurate_of_construct hcopy
  | cycleFrom name =>
      rw [Chronicle.after, Accurate, Operation.changes, List.append_nil]
      · exact h.congr (definitions_cycleFrom _ name) (rules_cycleFrom _ name)
      · simp
  | validate sentence rule =>
      rw [Chronicle.after, Accurate, Operation.changes, List.append_nil]
      · exact h.congr (definitions_validate sentence rule) (rules_validate sentence rule)
      · simp

end Chronicle

/-! ## Grammars side by side -/

/-- Grammars that are worked on side by side, each in a place of its own. -/
abbrev Workspace := String → Chronicle

/-- Something that is done in a workspace. -/
inductive Workspace.Step where
  /-- A new grammar is written from sources. -/
  | construct (place : String) (sources : List (String × String))
  /-- A copy of the grammar of one place is put into another, or into the same. -/
  | copy (place origin : String)
  /-- The grammar of one place is merged into that of another, or into itself. -/
  | merge (place origin : String)
  /-- An operation is carried out on one grammar. -/
  | operate (place : String) (operation : Operation)

namespace Workspace

/-- The workspace in which every place holds the grammar without rules. -/
def initial : Workspace :=
  fun _ => ⟨Grammar.empty, []⟩

/-- The workspace with a new grammar of these definitions in a place. If it cannot be made, the
place keeps the grammar that it has. -/
def renew (workspace : Workspace) (place : String) (sources : List (String × String)) : Workspace :=
  Function.update workspace place ((Chronicle.construct? sources).getD (workspace place))

/-- The workspace that a step leaves. -/
def Step.apply (workspace : Workspace) : Step → Workspace
  | .construct place sources => workspace.renew place sources
  | .copy place origin => workspace.renew place (workspace origin).grammar.sources
  | .merge place origin =>
      Function.update workspace place
        ((workspace place).after (.merge (workspace origin).grammar))
  | .operate place operation =>
      Function.update workspace place ((workspace place).after operation)

/-- The workspace that steps leave, one after the other. -/
def run (steps : List Step) : Workspace :=
  steps.foldl Step.apply initial

/-- In every place, the log tells what the grammar is. -/
def Accurate (workspace : Workspace) : Prop :=
  ∀ place, (workspace place).Accurate

variable {workspace : Workspace}

/-- A new chronicle that is accurate leaves a workspace accurate. -/
theorem Accurate.update (h : workspace.Accurate) {chronicle : Chronicle}
    (hnew : chronicle.Accurate) (place : String) :
    Accurate (Function.update workspace place chronicle) := by
  intro other
  by_cases hplace : other = place
  · subst hplace
    rwa [Function.update_self]
  · rw [Function.update_of_ne hplace]
    exact h other

/-- A new grammar leaves a workspace accurate, whether it can be made or not. -/
theorem Accurate.renew (h : workspace.Accurate) (place : String)
    (sources : List (String × String)) : (workspace.renew place sources).Accurate := by
  refine h.update ?_ place
  cases hnew : Chronicle.construct? sources with
  | none => exact h place
  | some chronicle => exact Chronicle.accurate_of_construct hnew

/-- A step leaves a workspace accurate. -/
theorem Accurate.apply (h : workspace.Accurate) (step : Step) :
    Accurate (step.apply workspace) := by
  cases step with
  | construct place sources => exact h.renew place sources
  | copy place origin => exact h.renew place _
  | merge place origin => exact h.update ((h place).after _) place
  | operate place operation => exact h.update ((h place).after operation) place

/-- In every workspace that steps leave, the logs tell what the grammars are. -/
theorem accurate_run (steps : List Step) : Accurate (run steps) := by
  unfold run
  induction steps using List.reverseRecOn with
  | nil => exact fun _ => told_nil
  | append_singleton steps step ih =>
      rw [List.foldl_append]
      exact ih.apply step

/-- After every sequence of steps and in every place, the log of the changes decides. The definition
of a name is the one that its last change has left, so that there is one exactly if that was an
addition. The names are those that have arrived, without repetition and in the order of their
arrival. Of the rules the same holds with the log without the additions that cannot be read. Every
rule has a definition, and a definition that can be read has the rule that it reads as. If all
additions can be read, the rules have the names of the definitions, in the same order. -/
theorem changes_decide (steps : List Step) (place : String) :
    let grammar := (run steps place).grammar
    let log := (run steps place).log
    (grammar.names.Nodup ∧ grammar.names.Pairwise log.ArrivedBefore ∧
      ∀ name, grammar.definitions.find? name = log.value? name ∧
        (name ∈ grammar.names ↔ (log.value? name).isSome) ∧
        (name ∈ grammar.names ↔ ∃ moment, log.ArrivedAt name moment)) ∧
    (grammar.rules.names.Nodup ∧ grammar.rules.names.Pairwise (compiled log).ArrivedBefore ∧
      ∀ name, grammar.definition? name = (compiled log).value? name ∧
        (name ∈ grammar.rules.names ↔ ((compiled log).value? name).isSome) ∧
        (name ∈ grammar.rules.names ↔ ∃ moment, (compiled log).ArrivedAt name moment)) ∧
    (∀ name ∈ grammar.rules.names, name ∈ grammar.names) ∧
    (∀ name source definition, grammar.definitions.find? name = some source →
      Definition.read source.toList = .ok definition →
        grammar.definition? name = some definition) ∧
    (AllReadable log → grammar.rules.names = grammar.names ∧
      ∀ name source, grammar.definitions.find? name = some source →
        ∃ definition, Definition.read source.toList = .ok definition ∧
          grammar.definition? name = some definition) := by
  intro grammar log
  have htold : Told log grammar := accurate_run steps place
  refine ⟨⟨grammar.definitions.nodup, htold.definitions.ordered, fun name =>
      ⟨htold.definitions.find_eq name, htold.definitions.mem_names_iff, ?_⟩⟩,
    ⟨grammar.rules.nodup, htold.rules.ordered, fun name =>
      ⟨htold.rules.find_eq name, htold.rules.mem_names_iff, ?_⟩⟩,
    htold.consistent.named, fun name source definition hfind hread => ?_, fun hreadable => ⟨?_, ?_⟩⟩
  · rw [ChangeLog.exists_arrived_at_iff]
    exact htold.definitions.mem_names_iff
  · rw [ChangeLog.exists_arrived_at_iff]
    exact htold.rules.mem_names_iff
  · have hsource : Definition.Readable source := ⟨definition, hread⟩
    rw [htold.consistent.current name source hfind hsource]
    rw [hsource.read_eq] at hread
    exact congrArg some (Except.ok.inj hread)
  · rw [htold.synced hreadable, Dict.names_map, names]
  · -- A definition that is there was added, and so it can be read.
    intro name source hfind
    have hsource : Definition.Readable source := by
      rw [htold.definitions.find_eq, ChangeLog.value?, Option.bind_eq_some_iff] at hfind
      obtain ⟨change, hchange, hvalue⟩ := hfind
      cases change with
      | removed _ => cases hvalue
      | added other text =>
          cases hvalue
          exact hreadable other source (List.mem_reverse.1 (List.mem_of_find?_eq_some hchange))
    exact ⟨_, hsource.read_eq, htold.consistent.current name source hfind hsource⟩

end Workspace

end Grammar

end Bnf

namespace Bnf.Grammar.Workspace

/-- A rule that is overwritten, and one that is removed and added again. -/
def rewritten : List Step :=
  [.construct "home" [("greeting", "<name>"), ("name", "\"you\"")],
   .operate "home" (.insert "greeting" "\"hello\" <name>"), .operate "home" (.erase "name"),
   .operate "home" (.insert "name" "[a-z]*")]

/-- All that was added can be read, so every definition is there as a rule. -/
theorem changes_decide_rewritten :
    let grammar := (run rewritten "home").grammar
    grammar.names = ["greeting", "name"] ∧ grammar.rules.names = grammar.names ∧
      (∃ definition, Definition.read "\"hello\" <name>".toList = .ok definition ∧
        grammar.definition? "greeting" = some definition) ∧
      ∃ moment, (run rewritten "home").log.ArrivedAt "name" moment := by
  have hlog : (run rewritten "home").log =
      [.added "greeting" "<name>", .added "name" "\"you\"",
        .added "greeting" "\"hello\" <name>", .removed "name", .added "name" "[a-z]*"] := by cbv
  have hnames : (run rewritten "home").grammar.names = ["greeting", "name"] := by cbv
  have hreadable : AllReadable (run rewritten "home").log := by
    rw [hlog]
    intro name source hadded
    simp only [List.mem_cons, Change.added.injEq, reduceCtorEq, List.not_mem_nil, or_false,
      false_or] at hadded
    rw [Definition.readable_iff]
    rcases hadded with ⟨-, rfl⟩ | ⟨-, rfl⟩ | ⟨-, rfl⟩ | ⟨-, rfl⟩ <;> cbv
  obtain ⟨⟨-, -, hlast⟩, -, -, -, hsynced⟩ := changes_decide rewritten "home"
  obtain ⟨hrules, hdefinitions⟩ := hsynced hreadable
  refine ⟨hnames, hrules, hdefinitions "greeting" _ (by cbv), (hlast "name").2.2.1 ?_⟩
  rw [hnames]
  exact List.mem_cons_of_mem _ List.mem_cons_self

/-- A name that is overwritten keeps its place, and one that is removed and added again moves to the
end. A merge of a grammar into itself moves nothing. -/
example :
    (run [.construct "home" [("greeting", "<name>"), ("name", "\"you\""), ("farewell", "\"bye\"")],
      .operate "home" (.insert "greeting" "\"hello\" <name>"), .operate "home" (.erase "name"),
      .merge "home" "home", .operate "home" (.insert "name" "\"me\"")]
        "home").grammar.names = ["greeting", "farewell", "name"] := by
  cbv

/-- A definition that cannot be read is kept without a rule, so that the definitions and the rules
do not have the same names. -/
theorem names_differ_unreadable :
    (run [.operate "home" (.insert "symbol" "[\\U80000000]")] "home").grammar.names = ["symbol"] ∧
    (run [.operate "home" (.insert "symbol" "[\\U80000000]")] "home").grammar.rules.names = [] := by
  constructor <;> cbv

end Bnf.Grammar.Workspace
