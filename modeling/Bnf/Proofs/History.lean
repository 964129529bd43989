import Bnf.Grammar.Loading
import Bnf.Grammar.Validation
import Bnf.Proofs.Dict
import Bnf.Proofs.Reading

/-!
# The history of a grammar

A grammar is written from names and definitions and then goes through operations: changes of its
rules, and questions that may add to what it remembers. Every operation comes down to inserting a
rule, erasing one, and searching for a cycle. So what is preserved by these three holds after every
history, which is `Invariant.run`. An operation that faults is part of the history as well, with
whatever it has changed before the fault.

The first thing that holds is that a grammar is consistent: every rule has a definition and was read
from some text, and a definition that can be read has the rule that it reads as. A definition that
cannot be read may go with an older rule or with none. A fresh grammar that can be made of the
definitions has the same rules (`definition_rebuild`), although perhaps in another order.
-/

namespace Bnf.Grammar

/-- Something that is done with a grammar: a change of its rules, or a question about them. -/
inductive Operation where
  | insert (name source : String)
  | erase (name : String)
  | merge (other : Grammar)
  | readLine (line : String)
  | load (lines : List (List Char))
  | rebuild
  | cycleFrom (name : String)
  | validate (sentence rule : String)

variable [UnicodeData]

/-- The grammar that an operation leaves, also where it faults. If no copy can be made of a grammar,
the grammar itself stays. -/
def Operation.apply (grammar : Grammar) : Operation → Grammar
  | .insert name source => (grammar.insert name source).2
  | .erase name => (grammar.erase name).2
  | .merge other => (grammar.merge other).2
  | .readLine line => (grammar.readLine line).2
  | .load lines => (grammar.load lines).grammar
  | .rebuild =>
      match grammar.rebuild with
      | .ok copy => copy
      | .error _ => grammar
  | .cycleFrom name => (grammar.cycleFrom name).2
  | .validate sentence rule => (grammar.validate sentence rule).2

/-- The grammar that operations leave, one after the other. -/
def run (operations : List Operation) (grammar : Grammar) : Grammar :=
  operations.foldl Operation.apply grammar

variable {grammar other copy : Grammar} {name source : String} {sources : List (String × String)}

/-! ## Single changes -/

/-- A definition that can be read becomes the rule of its name. -/
theorem insert_of_readable (h : Definition.Readable source) (grammar : Grammar) (name : String) :
    grammar.insert name source = (.ok (), ⟨grammar.definitions.put name source,
      grammar.rules.put name (Definition.tree source.toList), []⟩) := by
  rw [insert, h.read_eq]

/-- A definition that cannot be read is kept, and nothing else changes. -/
theorem insert_of_not_readable (h : ¬ Definition.Readable source) (grammar : Grammar)
    (name : String) : grammar.insert name source = (.error .codePointOverflow,
      { grammar with definitions := grammar.definitions.put name source }) := by
  rw [insert, Definition.read_of_not_readable h]

theorem definitions_insert (grammar : Grammar) (name source : String) :
    (grammar.insert name source).2.definitions = grammar.definitions.put name source := by
  unfold insert
  dsimp only
  split <;> rfl

/-- A definition is looked up as the insertion has left it, if it can be read. -/
theorem definition_insert (grammar : Grammar) (name source target : String) :
    (grammar.insert name source).2.definition? target =
      if target = name ∧ Definition.Readable source then some (Definition.tree source.toList)
      else grammar.definition? target := by
  by_cases hsource : Definition.Readable source
  · rw [insert_of_readable hsource, definition?, Dict.find_put]
    simp [hsource, definition?]
  · rw [insert_of_not_readable hsource, if_neg fun h => hsource h.2]
    rfl

omit [UnicodeData] in
theorem definitions_erase (grammar : Grammar) (name : String) :
    (grammar.erase name).2.definitions = grammar.definitions.remove name := by
  unfold erase
  split
  · dsimp only
    split <;> rfl
  · rename_i hname
    exact (Dict.remove_eq_self hname).symm

omit [UnicodeData] in
/-- A name is defined if there is a rule of this name. -/
theorem defines_iff_mem_names : grammar.defines name = true ↔ name ∈ grammar.rules.names := by
  rw [defines, definition?, Dict.mem_names_iff]

/-! ## Many insertions -/

/-- Insertions of two lists in a row are those of the first and, unless one of them faults, those of
the second. -/
theorem insertAll_append (grammar : Grammar) (first later : List (String × String)) :
    grammar.insertAll (first ++ later) =
      match grammar.insertAll first with
      | (.ok (), changed) => changed.insertAll later
      | (.error fault, changed) => (.error fault, changed) := by
  induction first generalizing grammar with
  | nil => rfl
  | cons entry rest ih =>
      rw [List.cons_append, insertAll, insertAll]
      rcases grammar.insert entry.1 entry.2 with ⟨_ | _, changed⟩
      · rfl
      · exact ih changed

/-- Definitions as they read. -/
def trees (sources : List (String × String)) : List (String × Definition) :=
  sources.map (Prod.map id fun source => Definition.tree source.toList)

/-- Of definitions that are inserted one after the other, those that become rules: all before the
first that cannot be read. -/
def accepted (sources : List (String × String)) : List (String × String) :=
  sources.takeWhile fun entry => Definition.Readable entry.2

/-- Of definitions that are inserted one after the other, those that are kept: the ones that become
rules, and the first that cannot be read. -/
def attempted (sources : List (String × String)) : List (String × String) :=
  sources.take ((accepted sources).length + 1)

theorem accepted_cons (entry : String × String) (rest : List (String × String)) :
    accepted (entry :: rest) =
      if Definition.Readable entry.2 then entry :: accepted rest else [] := by
  rw [accepted, List.takeWhile_cons]
  exact if_congr decide_eq_true_iff rfl rfl

theorem attempted_cons (entry : String × String) (rest : List (String × String)) :
    attempted (entry :: rest) =
      entry :: if Definition.Readable entry.2 then attempted rest else [] := by
  rw [attempted, accepted_cons, List.take_succ_cons]
  split <;> rfl

/-- If all definitions can be read, all become rules. -/
theorem accepted_of_readable (h : ∀ entry ∈ sources, Definition.Readable entry.2) :
    accepted sources = sources :=
  List.takeWhile_eq_self_iff.2 fun entry hentry => decide_eq_true (h entry hentry)

theorem attempted_of_readable (h : ∀ entry ∈ sources, Definition.Readable entry.2) :
    attempted sources = sources := by
  rw [attempted, accepted_of_readable h]
  exact List.take_of_length_le (Nat.le_succ _)

theorem mem_of_mem_attempted {entry : String × String} (h : entry ∈ attempted sources) :
    entry ∈ sources :=
  List.mem_of_mem_take h

/-- What becomes a rule is one of the definitions and can be read. -/
theorem mem_of_mem_accepted {entry : String × String} (h : entry ∈ accepted sources) :
    entry ∈ sources ∧ Definition.Readable entry.2 := by
  have hreadable :=
    List.mem_takeWhile_imp (p := fun entry : String × String => Definition.Readable entry.2) h
  exact ⟨(List.takeWhile_sublist _).subset h, of_decide_eq_true hreadable⟩

/-- What insertions leave. What is known of recursion is forgotten with the first rule. -/
theorem insertAll_snd (grammar : Grammar) (sources : List (String × String)) :
    (grammar.insertAll sources).2 =
      ⟨grammar.definitions.putAll (attempted sources),
        grammar.rules.putAll (trees (accepted sources)),
        if accepted sources = [] then grammar.acyclic else []⟩ := by
  induction sources generalizing grammar with
  | nil => rfl
  | cons entry rest ih =>
      rw [insertAll, attempted_cons, accepted_cons]
      by_cases hentry : Definition.Readable entry.2
      · rw [insert_of_readable hentry, if_pos hentry, if_pos hentry, if_neg (List.cons_ne_nil _ _)]
        dsimp only
        rw [ih, ite_self]
        rfl
      · rw [insert_of_not_readable hentry, if_neg hentry, if_neg hentry, if_pos rfl]
        rfl

/-- Insertions come to their end if all definitions can be read, and otherwise fault. -/
theorem insertAll_fst (grammar : Grammar) (sources : List (String × String)) :
    (grammar.insertAll sources).1 =
      if ∀ entry ∈ sources, Definition.Readable entry.2 then .ok ()
      else .error .codePointOverflow := by
  induction sources generalizing grammar with
  | nil => rfl
  | cons entry rest ih =>
      rw [insertAll]
      by_cases hentry : Definition.Readable entry.2
      · have hrest : (∀ other ∈ entry :: rest, Definition.Readable other.2) ↔
            ∀ other ∈ rest, Definition.Readable other.2 :=
          List.forall_mem_cons.trans (and_iff_right hentry)
        rw [insert_of_readable hentry, if_congr hrest rfl rfl]
        exact ih _
      · rw [insert_of_not_readable hentry, if_neg fun h => hentry (h entry List.mem_cons_self)]

/-- Insertions come to their end exactly if all definitions can be read. -/
theorem insertAll_fst_eq_ok_iff (grammar : Grammar) (sources : List (String × String)) :
    (grammar.insertAll sources).1 = .ok () ↔
      ∀ entry ∈ sources, Definition.Readable entry.2 := by
  rw [insertAll_fst]
  split
  · rename_i hsources
    exact iff_of_true rfl hsources
  · rename_i hsources
    exact iff_of_false (fun h => nomatch h) hsources

/-- Definitions that can all be read become the rules of their names. -/
theorem insertAll_of_readable (h : ∀ entry ∈ sources, Definition.Readable entry.2)
    (grammar : Grammar) :
    grammar.insertAll sources = (.ok (), ⟨grammar.definitions.putAll sources,
      grammar.rules.putAll (trees sources), if sources = [] then grammar.acyclic else []⟩) := by
  refine Prod.ext ?_ ?_
  · rw [insertAll_fst, if_pos h]
  · rw [insertAll_snd, attempted_of_readable h, accepted_of_readable h]

/-- A fresh grammar can be made if all definitions can be read. -/
theorem construct_eq (sources : List (String × String)) :
    construct sources =
      if ∀ entry ∈ sources, Definition.Readable entry.2 then .ok (ofSources sources)
      else .error .codePointOverflow := by
  rw [construct, insertAll_fst]
  split <;> rfl

/-- A fresh grammar can be made exactly if all definitions can be read. -/
theorem construct_eq_ok_iff :
    construct sources = .ok copy ↔
      (∀ entry ∈ sources, Definition.Readable entry.2) ∧ ofSources sources = copy := by
  rw [construct_eq]
  split
  · rename_i hsources
    exact ⟨fun h => ⟨hsources, Except.ok.inj h⟩, fun h => congrArg _ h.2⟩
  · rename_i hsources
    exact ⟨fun h => (nomatch h), fun h => absurd h.1 hsources⟩

/-- A fresh grammar cannot be made exactly if one of the definitions names a code point that is too
large. -/
theorem construct_eq_error_iff {fault : Fault} :
    construct sources = .error fault ↔ fault = .codePointOverflow ∧
      ∃ entry ∈ sources, Definition.read entry.2.toList = .error .codePointOverflow := by
  rw [construct_eq]
  constructor
  · intro h
    split at h
    · cases h
    · rename_i hsources
      obtain ⟨entry, hentry, hread⟩ := not_forall₂.1 hsources
      exact ⟨(Except.error.inj h).symm, entry, hentry, Definition.read_of_not_readable hread⟩
  · rintro ⟨rfl, entry, hentry, hread⟩
    rw [if_neg]
    intro hsources
    rw [(hsources entry hentry).read_eq] at hread
    cases hread

/-! ## What every history preserves -/

/-- A property that holds of the grammar without rules and is preserved by insertions, erasures and
searches for a cycle. -/
structure Invariant (holds : Grammar → Prop) : Prop where
  empty : holds Grammar.empty
  insert : ∀ grammar name source, holds grammar → holds (grammar.insert name source).2
  erase : ∀ grammar name, holds grammar → holds (grammar.erase name).2
  cycleFrom : ∀ grammar name, holds grammar → holds (grammar.cycleFrom name).2

namespace Invariant

variable {holds : Grammar → Prop}

/-- An invariant is preserved by inserting many rules. -/
theorem insertAll (hinvariant : Invariant holds) (sources : List (String × String))
    (h : holds grammar) : holds (grammar.insertAll sources).2 := by
  induction sources generalizing grammar with
  | nil => exact h
  | cons first rest ih =>
      have hfirst := hinvariant.insert grammar first.1 first.2 h
      unfold Grammar.insertAll
      split
      · rename_i hinsert
        rw [hinsert] at hfirst
        exact ih hfirst
      · rename_i hinsert
        rwa [hinsert] at hfirst

/-- An invariant holds of every grammar that is written from sources. -/
theorem ofSources (hinvariant : Invariant holds) (sources : List (String × String)) :
    holds (ofSources sources) :=
  hinvariant.insertAll sources hinvariant.empty

/-- An invariant holds of every grammar that is constructed. -/
theorem construct (hinvariant : Invariant holds) (h : Grammar.construct sources = .ok copy) :
    holds copy := by
  obtain ⟨-, rfl⟩ := construct_eq_ok_iff.1 h
  exact hinvariant.ofSources sources

/-- An invariant is preserved by reading a line. -/
theorem readLine (hinvariant : Invariant holds) (line : String) (h : holds grammar) :
    holds (grammar.readLine line).2 := by
  unfold Grammar.readLine
  dsimp only
  split
  · exact hinvariant.insert grammar _ _ h
  · exact h

/-- An invariant is preserved by loading one more line. -/
theorem loadLine (hinvariant : Invariant holds) {loaded : Loaded} (line : List Char)
    (h : holds loaded.grammar) : holds (loadLine loaded line).grammar := by
  have hline := hinvariant.readLine (String.ofList (Text.strip line)) h
  unfold Grammar.loadLine
  dsimp only
  generalize loaded.grammar.readLine (String.ofList (Text.strip line)) = outcome at hline ⊢
  repeat' split
  · exact h
  · exact h
  all_goals exact hline

/-- An invariant is preserved by loading lines. -/
theorem load (hinvariant : Invariant holds) (lines : List (List Char)) (h : holds grammar) :
    holds (grammar.load lines).grammar := by
  have hlines : ∀ loaded : Loaded, holds loaded.grammar →
      holds (lines.foldl Grammar.loadLine loaded).grammar := by
    induction lines with
    | nil => exact fun _ hloaded => hloaded
    | cons line rest ih =>
        exact fun loaded hloaded => ih _ (hinvariant.loadLine line hloaded)
  exact hlines ⟨grammar, .ok 0, []⟩ h

/-- An invariant is preserved by every operation. -/
theorem apply (hinvariant : Invariant holds) (operation : Operation) (h : holds grammar) :
    holds (operation.apply grammar) := by
  -- Every operation is one of the three, or many insertions, or nothing at all.
  cases operation with
  | insert name source => exact hinvariant.insert grammar name source h
  | erase name => exact hinvariant.erase grammar name h
  | merge other => exact hinvariant.insertAll other.sources h
  | readLine line => exact hinvariant.readLine line h
  | load lines => exact hinvariant.load lines h
  | rebuild =>
      unfold Operation.apply
      dsimp only
      split
      · rename_i copy hcopy
        exact hinvariant.construct hcopy
      · exact h
  | cycleFrom name => exact hinvariant.cycleFrom grammar name h
  | validate sentence rule =>
      unfold Operation.apply
      dsimp only
      rw [grammar_validate]
      split
      · exact hinvariant.cycleFrom grammar rule h
      · exact h

/-- An invariant holds after every history. -/
theorem run (hinvariant : Invariant holds) (sources : List (String × String))
    (operations : List Operation) : holds (run operations (Grammar.ofSources sources)) := by
  have hrun : ∀ grammar, holds grammar → holds (Grammar.run operations grammar) := by
    unfold Grammar.run
    induction operations with
    | nil => exact fun _ h => h
    | cons operation rest ih => exact fun grammar h => ih _ (hinvariant.apply operation h)
  exact hrun _ (hinvariant.ofSources sources)

end Invariant

/-! ## Consistency -/

/-- Every rule has a definition and was read from some text, and a definition that can be read has
the rule that it reads as. -/
structure Consistent (grammar : Grammar) : Prop where
  named : ∀ name ∈ grammar.rules.names, name ∈ grammar.names
  written : ∀ name definition, grammar.definition? name = some definition →
    ∃ source : String, Definition.read source.toList = .ok definition
  current : ∀ name source, grammar.definitions.find? name = some source →
    Definition.Readable source → grammar.definition? name = some (Definition.tree source.toList)

/-- Insertion keeps a grammar consistent. -/
theorem Consistent.insert (h : grammar.Consistent) (name source : String) :
    (grammar.insert name source).2.Consistent where
  named target := by
    rw [← defines_iff_mem_names, defines, definition_insert, names, definitions_insert,
      Dict.mem_names_put]
    split
    · rename_i htarget
      exact fun _ => .inl htarget.1
    · exact fun hdefined => .inr (h.named target (defines_iff_mem_names.1 hdefined))
  written target definition := by
    rw [definition_insert]
    split
    · rename_i htarget
      rintro ⟨⟩
      exact ⟨source, htarget.2.read_eq⟩
    · exact h.written target definition
  current target text := by
    rw [definitions_insert, Dict.find_put, definition_insert]
    by_cases htarget : target = name
    · rw [if_pos htarget]
      rintro ⟨⟩ hsource
      rw [if_pos ⟨htarget, hsource⟩]
    · rw [if_neg htarget, if_neg fun hboth => htarget hboth.1]
      exact h.current target text

/-- Erasure removes the rule of a name from a consistent grammar, if there is one. -/
theorem Consistent.rules_erase (h : grammar.Consistent) (name : String) :
    (grammar.erase name).2.rules = grammar.rules.remove name := by
  unfold Grammar.erase
  by_cases hdefined : grammar.defines name = true
  · rw [if_pos (h.named name (defines_iff_mem_names.1 hdefined))]
    dsimp only
    rw [if_pos hdefined]
  · -- Without a rule of the name, the rules are kept, with or without a fault.
    rw [Dict.remove_eq_self fun hname => hdefined (defines_iff_mem_names.2 hname)]
    dsimp only
    rw [if_neg hdefined]
    split <;> rfl

/-- What is looked up in a consistent grammar after an erasure. -/
theorem Consistent.definition_erase (h : grammar.Consistent) (name target : String) :
    (grammar.erase name).2.definition? target =
      if target = name then none else grammar.definition? target := by
  rw [definition?, h.rules_erase, Dict.find_remove, definition?]

/-- Erasure keeps a grammar consistent. -/
theorem Consistent.erase (h : grammar.Consistent) (name : String) :
    (grammar.erase name).2.Consistent where
  named target := by
    rw [← defines_iff_mem_names, defines, h.definition_erase, names, definitions_erase,
      Dict.names_remove, List.mem_filter, decide_eq_true_eq]
    split
    · rintro ⟨⟩
    · rename_i htarget
      exact fun hdefined => ⟨h.named target (defines_iff_mem_names.1 hdefined), htarget⟩
  written target definition := by
    rw [h.definition_erase]
    split
    · rintro ⟨⟩
    · exact h.written target definition
  current target text := by
    rw [definitions_erase, Dict.find_remove, h.definition_erase]
    split
    · rintro ⟨⟩
    · exact h.current target text

/-- Consistency is a matter of the definitions and the rules only. -/
theorem Consistent.congr (h : grammar.Consistent)
    (hdefinitions : other.definitions = grammar.definitions)
    (hrules : other.rules = grammar.rules) :
    other.Consistent := by
  obtain ⟨definitions, rules, acyclic⟩ := other
  cases hdefinitions
  cases hrules
  exact ⟨h.named, h.written, h.current⟩

/-- Grammars are consistent, whatever is done with them. -/
theorem consistent_invariant : Invariant Consistent where
  empty := ⟨List.forall_mem_nil _, fun _ _ h => (nomatch h), fun _ _ h => (nomatch h)⟩
  insert _ name source h := h.insert name source
  erase _ name h := h.erase name
  cycleFrom grammar name h :=
    h.congr (definitions_cycleFrom grammar name) (rules_cycleFrom grammar name)

/-! ## Copies -/

/-- A fresh grammar of the definitions of a consistent one has the same definitions and rules. -/
theorem Consistent.definition_rebuild (h : grammar.Consistent)
    (hcopy : grammar.rebuild = .ok copy) :
    copy.definitions = grammar.definitions ∧ copy.definition? = grammar.definition? := by
  obtain ⟨hsources, rfl⟩ := construct_eq_ok_iff.1 hcopy
  have hcopied := insertAll_of_readable hsources Grammar.empty
  have hmap : (ofSources grammar.sources).rules =
      grammar.definitions.map fun source => Definition.tree source.toList := by
    rw [ofSources, hcopied]
    exact Dict.putAll_entries (grammar.definitions.map _)
  refine ⟨?_, funext fun name => ?_⟩
  · rw [ofSources, hcopied]
    exact Dict.putAll_entries _
  rw [definition?, hmap, Dict.find_map]
  cases hfind : grammar.definitions.find? name with
  | none =>
      rw [Dict.find_eq_none_iff] at hfind
      exact (Dict.find_eq_none_iff.2 fun hname => hfind (h.named name hname)).symm
  | some source =>
      exact (h.current name source hfind (hsources _ (Dict.find_eq_some_iff.1 hfind))).symm

end Bnf.Grammar
