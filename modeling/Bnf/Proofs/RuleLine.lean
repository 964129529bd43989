import Bnf.Proofs.History
import Bnf.Proofs.Strip

/-!
# What a line writes

A line writes a rule or nothing at all. The name that it writes has no blank at its ends and holds
neither a line feed nor the separator, and the definition has no blank at its ends either and is not
empty. Conversely, `RuleLine.read_written` says that every such name, followed by the separator and
by any text on one line that is not blank, is read back, and the text without the blanks at its
ends: no part of the separator can be taken for the end of the name.

Loading lines comes down to inserting the rules that they write, which is `load_eq`.
-/

namespace Bnf

/-! ## The place of a marker -/

namespace Text

/-- A cut is made at an occurrence of the marker, and there is none further to the left. -/
theorem cut_at_eq_some {marker text before after : List Char} (hmarker : marker ≠ [])
    (h : cutAt? marker text = some (before, after)) :
    text = before ++ (marker ++ after) ∧ ¬ marker <:+: before := by
  induction text generalizing before with
  | nil =>
      rw [cutAt?, if_neg (by simpa using hmarker)] at h
      cases h
  | cons c rest ih =>
      rw [cutAt?] at h
      split at h
      · rename_i hfirst
        cases h
        rw [List.isPrefixOf_iff_prefix] at hfirst
        refine ⟨List.prefix_iff_eq_append.1 hfirst ▸ by simp, fun hinside => ?_⟩
        exact hmarker (List.eq_nil_of_infix_nil hinside)
      · rename_i hfirst
        rw [List.isPrefixOf_iff_prefix] at hfirst
        obtain ⟨⟨front, back⟩, hcut, heq⟩ := Option.map_eq_some_iff.1 h
        cases heq
        obtain ⟨rfl, hfront⟩ := ih hcut
        refine ⟨rfl, fun hinside => ?_⟩
        rcases List.infix_cons_iff.1 hinside with hstart | hinside
        · exact hfirst (hstart.trans (List.cons_append ▸ List.prefix_append _ _))
        · exact hfront hinside

/-- A marker whose first character does not come again in it cannot begin inside of a text and end
outside, so that the cut is made behind a text that does not hold it. -/
theorem cut_at_of_not_infix {first : Char} {rest : List Char} (hfirst : first ∉ rest)
    {before : List Char} (h : ¬ first :: rest <:+: before) (after : List Char) :
    cutAt? (first :: rest) (before ++ (first :: rest ++ after)) = some (before, after) := by
  induction before with
  | nil => simp [cutAt?]
  | cons c before ih =>
      rw [List.infix_cons_iff, not_or] at h
      have hnot : ¬ first :: rest <+: c :: (before ++ (first :: rest ++ after)) := by
        intro hstart
        obtain ⟨rfl, hrest⟩ := List.cons_prefix_cons.1 hstart
        have hnext : before ++ [first] <+: before ++ (first :: rest ++ after) := by
          rw [List.prefix_append_right_inj]
          exact ⟨rest ++ after, rfl⟩
        rcases List.prefix_or_prefix_of_prefix hrest hnext with hinside | hbeyond
        · rcases List.prefix_concat_iff.1 hinside with heq | hinside
          · exact hfirst (by simp [heq])
          · exact h.1 (List.cons_prefix_cons.2 ⟨rfl, hinside⟩)
        · exact hfirst (hbeyond.subset (by simp))
      rw [List.cons_append, cutAt?, if_neg (by simpa using hnot), ih h.2]
      rfl

end Text

/-! ## Reading a line -/

namespace RuleLine

/-- A text that a line can write as a name. -/
structure IsName (name : List Char) : Prop where
  stripped : Text.Stripped name
  one_line : '\n' ∉ name
  no_separator : ¬ separator <:+: name

/-- A text that a line can write as a definition. -/
structure IsSource (source : List Char) : Prop where
  stripped : Text.Stripped source
  one_line : '\n' ∉ source
  ne_nil : source ≠ []

/-- Blanks at the ends of a line do not count. -/
theorem read_strip (line : List Char) : read? (Text.strip line) = read? line := by
  rw [read?, read?, Text.strip_strip]

/-- A line that writes a rule begins with an angle bracket and is cut at the separator. -/
theorem read_eq_some {line name source : List Char} (h : read? line = some (name, source)) :
    ∃ before after, Text.strip line = '<' :: (before ++ (separator ++ after)) ∧
      '\n' ∉ Text.strip line ∧ ¬ separator <:+: before ∧
      name = Text.strip before ∧ source = Text.strip after := by
  rw [read?] at h
  dsimp only at h
  split at h
  · cases h
  · rename_i hline
    split at h
    · rename_i rest hrest
      obtain ⟨⟨before, after⟩, hcut, heq⟩ := Option.map_eq_some_iff.1 h
      cases heq
      obtain ⟨rfl, hbefore⟩ := Text.cut_at_eq_some (by decide) hcut
      exact ⟨before, after, hrest, hline, hbefore, rfl, rfl⟩
    · cases h

/-- What a line writes is a name and a definition. The definition is not empty because the separator
ends with a blank and the stripped line does not. -/
theorem is_name_and_is_source {line name source : List Char}
    (h : read? line = some (name, source)) : IsName name ∧ IsSource source := by
  obtain ⟨before, after, hline, hone, hseparator, rfl, rfl⟩ := read_eq_some h
  rw [hline] at hone
  refine ⟨⟨Text.strip_stripped before, fun hmem => hone ?_,
    fun hinside => hseparator (hinside.trans (Text.strip_infix before))⟩,
    ⟨Text.strip_stripped after, fun hmem => hone ?_, fun hnil => ?_⟩⟩
  · simp [(Text.strip_infix before).subset hmem]
  · simp [(Text.strip_infix after).subset hmem]
  · have hblank : ∀ c ∈ ' ' :: after, Text.isBlank c = true :=
      List.forall_mem_cons.2 ⟨by decide, Text.strip_eq_nil_iff.1 hnil⟩
    obtain ⟨c, hc⟩ := Option.ne_none_iff_exists'.1
      (mt List.getLast?_eq_none_iff.1 (List.cons_ne_nil ' ' after))
    have hlast : (Text.strip line).getLast? = some c := by
      rw [hline, separator, ← hc]
      simp [List.getLast?_append, List.getLast?_cons]
    have hstripped := (Text.strip_stripped line).last_not_blank c hlast
    rw [hblank c (List.mem_of_getLast? hc)] at hstripped
    cases hstripped

/-- A name, the separator and a text that is not blank, written on one line, are read back. -/
theorem read_written {name text : List Char} (hname : IsName name) (hone : '\n' ∉ text)
    (htext : Text.strip text ≠ []) :
    read? ('<' :: (name ++ (separator ++ text))) = some (name, Text.strip text) := by
  obtain ⟨front, back, heq, hfront, hback⟩ := Text.strip_decomposition text
  -- The blanks before the definition stay in the line, and those after it do not.
  have hsplit : '<' :: (name ++ (separator ++ text)) =
      [] ++ (('<' :: (name ++ (separator ++ (front ++ Text.strip text)))) ++ back) := by
    conv_lhs => rw [heq]
    simp
  have hstripped : Text.Stripped ('<' :: (name ++ (separator ++ (front ++ Text.strip text)))) := by
    refine ⟨fun c hc => by cases hc; rfl, fun c hc => ?_⟩
    refine (Text.strip_stripped text).last_not_blank c ?_
    rw [← List.cons_append, ← List.append_assoc, ← List.append_assoc,
      List.getLast?_append_of_ne_nil _ htext] at hc
    exact hc
  have hline : Text.strip ('<' :: (name ++ (separator ++ text))) =
      '<' :: (name ++ (separator ++ (front ++ Text.strip text))) := by
    rw [hsplit, Text.strip_between_blanks (List.forall_mem_nil _) hback, hstripped.strip_eq]
  have hfeed : '\n' ∉ '<' :: (name ++ (separator ++ (front ++ Text.strip text))) := by
    rw [heq] at hone
    simp only [List.mem_append, not_or] at hone
    simp [hname.one_line, hone.1, hone.2.1, separator]
  have hcut : Text.cutAt? separator (name ++ (separator ++ (front ++ Text.strip text))) =
      some (name, front ++ Text.strip text) :=
    Text.cut_at_of_not_infix (by decide) hname.no_separator _
  have hsource : Text.strip (front ++ Text.strip text) = Text.strip text := by
    have hblanks := Text.strip_between_blanks hfront (List.forall_mem_nil _) (Text.strip text)
    rwa [List.append_nil, Text.strip_strip] at hblanks
  rw [read?]
  dsimp only
  rw [hline, if_neg hfeed]
  change (Text.cutAt? separator _).map _ = _
  rw [hcut, Option.map_some, hname.stripped.strip_eq, hsource]

/-- The name and the definition that a line writes, as strings. -/
def written? (line : List Char) : Option (String × String) :=
  (read? line).map fun (name, source) => (String.ofList name, String.ofList source)

/-- What lines write is what the first writes, and then what the others write. -/
theorem filterMap_written_cons (line : List Char) (rest : List (List Char)) :
    (line :: rest).filterMap written? = (written? line).toList ++ rest.filterMap written? := by
  cases hline : written? line with
  | none => rw [List.filterMap_cons_none hline]; rfl
  | some entry => rw [List.filterMap_cons_some hline]; rfl

theorem written_strip (line : List Char) : written? (Text.strip line) = written? line := by
  rw [written?, read_strip, written?]

/-- The name and the definition that a line writes, the definition as it reads if it does. -/
def defined? [UnicodeData] (line : List Char) : Option (String × Definition) := do
  let (name, source) ← written? line
  let definition ← (Definition.read source.toList).toOption
  return (name, definition)

/-- A line that is passed over writes nothing. -/
theorem written_of_skipped {line : List Char} (h : isSkipped (Text.strip line) = true) :
    written? line = none := by
  rw [written?, read?]
  dsimp only
  split
  · rfl
  · split
    · rename_i hline
      rw [hline] at h
      cases h
    · rfl

end RuleLine

/-! ## Loading lines -/

namespace Grammar

variable [UnicodeData] {grammar : Grammar}

/-- Reading a line notes it, and inserts the rule that it writes or faults. -/
theorem read_line_eq (grammar : Grammar) (line : String) :
    grammar.readLine line = match RuleLine.written? line.toList with
      | some (name, source) =>
        (⟨[⟨0, .line line⟩], (grammar.insert name source).1.map fun _ => name⟩,
          (grammar.insert name source).2)
      | none => (⟨[⟨0, .line line⟩], .error (.malformedLine line)⟩, grammar) := by
  unfold readLine RuleLine.written?
  cases RuleLine.read? line.toList <;> rfl

/-- Loading does not go on after a fault. -/
theorem foldl_loadLine_of_error {loaded : Loaded} {fault : Fault} (h : loaded.result = .error fault)
    (lines : List (List Char)) : lines.foldl loadLine loaded = loaded := by
  induction lines with
  | nil => rfl
  | cons line rest ih =>
      have hline : loadLine loaded line = loaded := by
        unfold loadLine
        rw [h]
      rw [List.foldl_cons, hline, ih]

/-- Loading one more line inserts the rule that it writes, if there is one, and counts it. -/
theorem load_line_eq {loaded : Loaded} {count : Nat} (h : loaded.result = .ok count)
    (line : List Char) :
    (loadLine loaded line).grammar =
        (loaded.grammar.insertAll (RuleLine.written? line).toList).2 ∧
      (loadLine loaded line).result =
        (loaded.grammar.insertAll (RuleLine.written? line).toList).1.map
          fun _ => count + (RuleLine.written? line).toList.length := by
  rw [loadLine, h]
  dsimp only
  split
  · rename_i hskipped
    rw [RuleLine.written_of_skipped hskipped, h]
    exact ⟨rfl, rfl⟩
  · rw [read_line_eq, String.toList_ofList, RuleLine.written_strip]
    cases RuleLine.written? line with
    | none => exact ⟨rfl, rfl⟩
    | some entry =>
        dsimp only [Option.toList]
        rw [insertAll]
        by_cases hentry : Definition.Readable entry.2
        · rw [insert_of_readable hentry]
          exact ⟨rfl, rfl⟩
        · rw [insert_of_not_readable hentry]
          exact ⟨rfl, rfl⟩

/-- Loading lines inserts the rules that they write, one after the other, and counts them. -/
theorem load_eq (grammar : Grammar) (lines : List (List Char)) :
    (grammar.load lines).grammar =
        (grammar.insertAll (lines.filterMap RuleLine.written?)).2 ∧
      (grammar.load lines).result =
        (grammar.insertAll (lines.filterMap RuleLine.written?)).1.map
          fun _ => (lines.filterMap RuleLine.written?).length := by
  have hlines : ∀ (loaded : Loaded) (count : Nat), loaded.result = .ok count →
      (lines.foldl loadLine loaded).grammar =
          (loaded.grammar.insertAll (lines.filterMap RuleLine.written?)).2 ∧
        (lines.foldl loadLine loaded).result =
          (loaded.grammar.insertAll (lines.filterMap RuleLine.written?)).1.map
            fun _ => count + (lines.filterMap RuleLine.written?).length := by
    induction lines with
    | nil => exact fun loaded count h => ⟨rfl, h⟩
    | cons line rest ih =>
        intro loaded count h
        obtain ⟨hgrammar, hresult⟩ := load_line_eq h line
        rw [List.foldl_cons, RuleLine.filterMap_written_cons, insertAll_append,
          List.length_append, ← Nat.add_assoc]
        rcases hinsert : loaded.grammar.insertAll (RuleLine.written? line).toList with
          ⟨fault | ⟨⟨⟩⟩, changed⟩
        · rw [hinsert] at hgrammar hresult
          rw [foldl_loadLine_of_error hresult]
          exact ⟨hgrammar, hresult⟩
        · rw [hinsert] at hgrammar hresult
          rw [← show _ = changed from hgrammar]
          exact ih _ _ hresult
  have hload := hlines ⟨grammar, .ok 0, []⟩ 0 rfl
  rwa [Nat.zero_add] at hload

/-- Blank lines and comments make no difference to what is loaded. -/
theorem load_filter (grammar : Grammar) (lines : List (List Char)) :
    let rules := lines.filter fun line => !RuleLine.isSkipped (Text.strip line)
    (grammar.load rules).grammar = (grammar.load lines).grammar ∧
      (grammar.load rules).result = (grammar.load lines).result := by
  intro rules
  have hwritten : rules.filterMap RuleLine.written? = lines.filterMap RuleLine.written? := by
    rw [List.filterMap_filter]
    refine List.filterMap_congr fun line _ => ?_
    cases hskipped : RuleLine.isSkipped (Text.strip line) with
    | true => exact (RuleLine.written_of_skipped hskipped).symm
    | false => rfl
  rw [(load_eq _ _).1, (load_eq _ _).2, hwritten, ← (load_eq _ _).1, ← (load_eq _ _).2]
  exact ⟨rfl, rfl⟩

/-- If lines write definitions under distinct names, loading them gives these definitions. -/
theorem definition_load {lines : List (List Char)} {definitions : List (String × Definition)}
    (hlines : List.Forall₂ (fun line entry => RuleLine.defined? line = some entry) lines
      definitions)
    (hnodup : (definitions.map Prod.fst).Nodup) :
    (empty.load lines).grammar.definition? = fun name => definitions.lookup name := by
  have hwritten : (∀ entry ∈ lines.filterMap RuleLine.written?, Definition.Readable entry.2) ∧
      trees (lines.filterMap RuleLine.written?) = definitions := by
    clear hnodup
    induction hlines with
    | nil => exact ⟨List.forall_mem_nil _, rfl⟩
    | cons hfirst _ ih =>
        obtain ⟨⟨name, source⟩, hline, hread⟩ := Option.bind_eq_some_iff.1 hfirst
        obtain ⟨definition, hdefinition, hentry⟩ := Option.bind_eq_some_iff.1 hread
        cases hentry
        have hsource : Definition.Readable source := by
          cases hresult : Definition.read source.toList with
          | ok found => exact ⟨found, hresult⟩
          | error fault =>
              rw [hresult] at hdefinition
              cases hdefinition
        rw [hsource.read_eq] at hdefinition
        cases hdefinition
        rw [List.filterMap_cons_some hline, trees, List.map_cons, ← trees, ih.2]
        exact ⟨List.forall_mem_cons.2 ⟨hsource, ih.1⟩, rfl⟩
  obtain ⟨hreadable, hdefinitions⟩ := hwritten
  funext name
  rw [definition?, (load_eq empty lines).1, insertAll_of_readable hreadable, hdefinitions,
    Dict.find?]
  exact congrArg (List.lookup name) (Dict.entries_putAll_empty hnodup)

/-- Reading a line as an operation inserts the rule that it writes, if there is one. -/
theorem apply_read_line (line : String) :
    (Operation.readLine line).apply grammar =
      (grammar.insertAll (RuleLine.written? line.toList).toList).2 := by
  rw [Operation.apply, read_line_eq]
  cases RuleLine.written? line.toList with
  | none => rfl
  | some entry =>
      dsimp only [Option.toList]
      rw [insertAll]
      by_cases hentry : Definition.Readable entry.2
      · rw [insert_of_readable hentry]
        rfl
      · rw [insert_of_not_readable hentry]

/-- Loading lines as an operation inserts the rules that they write. -/
theorem apply_load (lines : List (List Char)) :
    (Operation.load lines).apply grammar =
      (grammar.insertAll (lines.filterMap RuleLine.written?)).2 :=
  (load_eq grammar lines).1

end Grammar

end Bnf
