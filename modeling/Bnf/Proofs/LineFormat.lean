import Bnf.Proofs.Live
import Bnf.Proofs.ReachableRules
import Bnf.UnicodeData.Version14
import Mathlib

/-!
# Which lines are rules

A line has the form of a rule exactly if, without the blanks at its ends, it is one line that begins
with an angle bracket and in which the separator stands somewhere behind the bracket
(`RuleLine.Formed`). The leftmost such place ends the name, also where parts of the separator stand
before it or more separators behind it. `read_isSome_iff` and `place_of_read` say this of reading
alone, by places in the text. What it means for a grammar, for one that is changed in place, and for
the line that is put together again from what was read, is `line_format_exact`. A line of this form
whose definition cannot be read is neither accepted nor refused as malformed: it faults behind the
change of the definitions.
-/

namespace Bnf

/-! ## The place of a cut -/

namespace Text

/-- The places of a text at which a marker stands. -/
def placesOf (marker text : List Char) : Set Nat :=
  {place | marker <+: text.drop place}

/-- A cut is made at the leftmost place of the marker. -/
theorem isLeast_of_cutAt {marker text before after : List Char}
    (h : cutAt? marker text = some (before, after)) :
    IsLeast (placesOf marker text) before.length ∧ before = text.take before.length ∧
      after = text.drop (before.length + marker.length) := by
  induction text generalizing before with
  | nil =>
      rw [cutAt?] at h
      split at h
      · rename_i hmarker
        rw [List.isEmpty_iff] at hmarker
        cases h
        refine ⟨⟨?_, fun place _ => Nat.zero_le place⟩, rfl, by simp⟩
        rw [hmarker]
        exact List.nil_prefix
      · cases h
  | cons c rest ih =>
      rw [cutAt?] at h
      split at h
      · rename_i hfirst
        cases h
        refine ⟨⟨List.isPrefixOf_iff_prefix.1 hfirst, fun place _ => Nat.zero_le place⟩, rfl, ?_⟩
        rw [List.length_nil, Nat.zero_add]
      · rename_i hfirst
        rw [List.isPrefixOf_iff_prefix] at hfirst
        obtain ⟨⟨front, back⟩, hcut, heq⟩ := Option.map_eq_some_iff.1 h
        cases heq
        obtain ⟨⟨hstands, hleast⟩, hfront, hback⟩ := ih hcut
        refine ⟨⟨hstands, fun place hplace => ?_⟩, ?_, ?_⟩
        · -- The marker does not stand at the very beginning, so its places are those of the rest.
          cases place with
          | zero => exact absurd hplace hfirst
          | succ place => exact Nat.succ_le_succ (hleast hplace)
        · rw [List.length_cons, List.take_succ_cons, ← hfront]
        · rw [List.length_cons, Nat.succ_add, List.drop_succ_cons, ← hback]

/-- No cut is made exactly if the marker stands nowhere. -/
theorem cutAt_eq_none_iff {marker text : List Char} :
    cutAt? marker text = none ↔ placesOf marker text = ∅ := by
  induction text with
  | nil => cases marker <;> simp [cutAt?, placesOf, Set.eq_empty_iff_forall_notMem]
  | cons c rest ih =>
      rw [cutAt?]
      split
      · rename_i hfirst
        rw [List.isPrefixOf_iff_prefix] at hfirst
        have hplace : 0 ∈ placesOf marker (c :: rest) := hfirst
        simp [Set.Nonempty.ne_empty ⟨0, hplace⟩]
      · rename_i hfirst
        rw [List.isPrefixOf_iff_prefix] at hfirst
        rw [Option.map_eq_none_iff, ih, Set.eq_empty_iff_forall_notMem,
          Set.eq_empty_iff_forall_notMem]
        constructor
        · intro h place hplace
          cases place with
          | zero => exact hfirst hplace
          | succ place => exact h place hplace
        · exact fun h place hplace => h (place + 1) hplace

end Text

namespace RuleLine

/-- The places behind the first character of a text at which the separator stands. -/
def nameEnds (text : List Char) : Set Nat :=
  {place | 1 ≤ place ∧ place ∈ Text.placesOf separator text}

/-- A text is one line that begins with an angle bracket, and the separator stands behind it. -/
structure Formed (text : List Char) : Prop where
  one_line : '\n' ∉ text
  opens : text.head? = some '<'
  separated : (nameEnds text).Nonempty

/-- Behind an angle bracket, the places of the separator are those in the rest, one further on. -/
theorem isLeast_nameEnds {rest : List Char} {place : Nat}
    (h : IsLeast (Text.placesOf separator rest) place) :
    IsLeast (nameEnds ('<' :: rest)) (place + 1) := by
  refine ⟨⟨Nat.succ_pos place, h.1⟩, ?_⟩
  rintro (_ | other) ⟨hpositive, hplace⟩
  · cases hpositive
  · exact Nat.succ_le_succ (h.2 hplace)

/-- What a line writes stands in the stripped line on the two sides of the leftmost separator. -/
theorem place_of_read {line name source : List Char} (h : read? line = some (name, source)) :
    Formed (Text.strip line) ∧ ∃ place, IsLeast (nameEnds (Text.strip line)) place ∧
      name = Text.strip (((Text.strip line).take place).drop 1) ∧
      source = Text.strip ((Text.strip line).drop (place + separator.length)) := by
  rw [read?] at h
  dsimp only at h
  split at h
  · cases h
  · rename_i hone
    split at h
    · rename_i rest htext
      obtain ⟨⟨before, after⟩, hcut, heq⟩ := Option.map_eq_some_iff.1 h
      cases heq
      obtain ⟨hleast, hbefore, hafter⟩ := Text.isLeast_of_cutAt hcut
      have hplace := isLeast_nameEnds hleast
      rw [htext] at hone ⊢
      refine ⟨⟨hone, rfl, ⟨_, hplace.1⟩⟩, _, hplace, ?_, ?_⟩
      · rw [List.take_succ_cons, List.drop_one, List.tail_cons, ← hbefore]
      · rw [Nat.succ_add, List.drop_succ_cons, ← hafter]
    · cases h

/-- A line writes something exactly if it is formed as a rule. -/
theorem read_isSome_iff {line : List Char} :
    (read? line).isSome = true ↔ Formed (Text.strip line) := by
  constructor
  · intro h
    obtain ⟨⟨name, source⟩, hread⟩ := Option.isSome_iff_exists.1 h
    exact (place_of_read hread).1
  · rintro ⟨hone, hopens, place, hpositive, hplace⟩
    obtain ⟨rest, htext⟩ := List.head?_eq_some_iff.1 hopens
    rw [htext] at hplace
    obtain ⟨earlier, rfl⟩ := Nat.exists_eq_succ_of_ne_zero (Nat.ne_zero_of_lt hpositive)
    have hcut : Text.cutAt? separator rest ≠ none := fun hnone =>
      Set.notMem_empty earlier (Text.cutAt_eq_none_iff.1 hnone ▸ hplace)
    obtain ⟨cut, hcut⟩ := Option.ne_none_iff_exists'.1 hcut
    rw [read?]
    dsimp only
    rw [if_neg hone, htext]
    show ((Text.cutAt? separator rest).map _).isSome = true
    rw [hcut]
    rfl

/-- The name that ends at a place of a text, without the angle bracket. -/
def nameAt (text : List Char) (place : Nat) : String :=
  String.ofList (Text.strip ((text.take place).drop 1))

/-- The definition behind the separator that stands at a place of a text. -/
def sourceAt (text : List Char) (place : Nat) : String :=
  String.ofList (Text.strip (text.drop (place + separator.length)))

/-- A line that is not formed as a rule writes nothing. -/
theorem written_of_not_formed {line : List Char} (h : ¬ Formed (Text.strip line)) :
    written? line = none := by
  rw [← read_isSome_iff, Option.not_isSome_iff_eq_none] at h
  rw [written?, h, Option.map_none]

/-- A line that is formed as a rule writes what stands beside the leftmost separator. -/
theorem written_of_formed {line : List Char} {place : Nat} (h : Formed (Text.strip line))
    (hplace : IsLeast (nameEnds (Text.strip line)) place) :
    written? line = some (nameAt (Text.strip line) place, sourceAt (Text.strip line) place) := by
  obtain ⟨⟨name, source⟩, hread⟩ := Option.isSome_iff_exists.1 (read_isSome_iff.2 h)
  obtain ⟨-, other, hother, hname, hsource⟩ := place_of_read hread
  cases hother.unique hplace
  rw [written?, hread, Option.map_some, nameAt, sourceAt, hname, hsource]

/-- In a formed line the separator stands at a leftmost place. -/
theorem Formed.exists_place {text : List Char} (h : Formed text) :
    ∃ place, IsLeast (nameEnds text) place :=
  ⟨_, Nat.sInf_mem h.separated, fun _ hplace => Nat.sInf_le hplace⟩

/-- The line that is put together from what a line writes, writes the same. -/
theorem written_again {line : List Char} {name source : String}
    (h : written? line = some (name, source)) :
    written? ("<" ++ name ++ "> ::= " ++ source).toList = some (name, source) ∧ source ≠ "" := by
  obtain ⟨⟨first, last⟩, hread, heq⟩ := Option.map_eq_some_iff.1 h
  cases heq
  obtain ⟨hname, hsource⟩ := is_name_and_is_source hread
  have hstrip : Text.strip last = last := hsource.stripped.strip_eq
  have hagain := read_written hname hsource.one_line (by rw [hstrip]; exact hsource.ne_nil)
  have hline : ("<" ++ String.ofList first ++ "> ::= " ++ String.ofList last).toList =
      '<' :: (first ++ (separator ++ last)) := by simp [separator]
  rw [hstrip] at hagain
  rw [written?, hline, hagain, Option.map_some]
  exact ⟨rfl, fun hnil => hsource.ne_nil (by simpa using hnil)⟩

end RuleLine

section

variable [UnicodeData]

namespace Grammar

/-- An insertion leaves the other definitions and rules and their order as they are, also if it
faults. -/
theorem others_insert (grammar : Grammar) (name source : String) :
    (grammar.insert name source).2.definitions.remove name = grammar.definitions.remove name ∧
      (grammar.insert name source).2.rules.remove name = grammar.rules.remove name := by
  rw [definitions_insert, Dict.remove_put]
  refine ⟨rfl, ?_⟩
  by_cases hsource : Definition.Readable source
  · rw [insert_of_readable hsource]
    exact Dict.remove_put _ _ _
  · rw [insert_of_not_readable hsource]

end Grammar

namespace RuleLine

/-- A line has the form of a rule exactly if, without the blanks at its ends, it is one line that
begins with an angle bracket and in which the separator stands behind the bracket. Any other line is
refused with a message that quotes it as it was given, and leaves the grammar as it was, with its
rules and with what it remembers.

In a formed line the leftmost such place ends the name; the name and what follows the separator are
stripped, and the definition is not empty. It is kept under the name, and all other definitions and
rules stay as they are and in their order. If the definition can be read, the line is accepted and
the definition as it reads becomes the rule. If not, the line faults, and the rules stay as they
are, and so does what the grammar remembers. The line that is put together from the name and the
definition does the same in every grammar.

In a session the grammar is changed in place, with the same result. -/
theorem line_format_exact (session : Session) (line : String) :
    let grammar := session.grammar
    let text := Text.strip line.toList
    let reading := (grammar.readLine line).1.result
    let changed := (grammar.readLine line).2
    let live := (Live.readLine line).on session
    (live.1 = reading ∧ live.2.grammar = changed) ∧
    ((∃ name, reading = .ok name) ↔ Formed text ∧
      ∀ place, IsLeast (nameEnds text) place → Definition.Readable (sourceAt text place)) ∧
    (¬ Formed text → reading = .error (.malformedLine line) ∧
      (Fault.malformedLine line).message = "Syntax error on line `" ++ line ++ "'" ∧
      changed = grammar) ∧
    (Formed text → ∃ place, IsLeast (nameEnds text) place ∧
      ∀ name source, name = nameAt text place → source = sourceAt text place →
        source ≠ "" ∧
        changed.definitions.find? name = some source ∧
        changed.definitions.remove name = grammar.definitions.remove name ∧
        changed.rules.remove name = grammar.rules.remove name ∧
        (∀ definition, Definition.read source.toList = .ok definition →
          reading = .ok name ∧ changed.definition? name = some definition) ∧
        (∀ fault, Definition.read source.toList = .error fault →
          reading = .error fault ∧ fault = .codePointOverflow ∧
          changed.rules = grammar.rules ∧ changed.acyclic = grammar.acyclic) ∧
        ∀ other : Grammar,
          (other.readLine ("<" ++ name ++ "> ::= " ++ source)).1.result =
            (other.insert name source).1.map (fun _ => name) ∧
          (other.readLine ("<" ++ name ++ "> ::= " ++ source)).2 =
            (other.insert name source).2) := by
  intro grammar text reading changed live
  have hlive : live = (reading, _) := Live.on_read_line line session
  refine ⟨by rw [hlive]; exact ⟨rfl, rfl⟩, ?_⟩
  by_cases hformed : Formed text
  · obtain ⟨place, hplace⟩ := hformed.exists_place
    have hwritten : written? line.toList = some (nameAt text place, sourceAt text place) :=
      written_of_formed hformed hplace
    have hline := Grammar.read_line_eq grammar line
    rw [hwritten] at hline
    have hreading : reading = (grammar.insert (nameAt text place) (sourceAt text place)).1.map
        fun _ => nameAt text place := congrArg (fun outcome => outcome.1.result) hline
    have hchanged : changed = (grammar.insert (nameAt text place) (sourceAt text place)).2 :=
      congrArg Prod.snd hline
    refine ⟨?_, fun h => absurd hformed h, fun _ => ⟨place, hplace, ?_⟩⟩
    · rw [hreading]
      by_cases hsource : Definition.Readable (sourceAt text place)
      · rw [Grammar.insert_of_readable hsource]
        exact iff_of_true ⟨_, rfl⟩
          ⟨hformed, fun other hother => (hother.unique hplace).symm ▸ hsource⟩
      · rw [Grammar.insert_of_not_readable hsource]
        refine iff_of_false ?_ fun h => hsource (h.2 place hplace)
        rintro ⟨name, h⟩
        cases h
    · rintro name source rfl rfl
      obtain ⟨hagain, hempty⟩ := written_again hwritten
      obtain ⟨hdefinitions, hrules⟩ := Grammar.others_insert grammar (nameAt text place)
        (sourceAt text place)
      rw [hreading, hchanged]
      refine ⟨hempty, ?_, hdefinitions, hrules, fun definition hread => ?_,
        fun fault hread => ?_, fun other => ?_⟩
      · rw [Grammar.definitions_insert, Dict.find_put, if_pos rfl]
      · rw [Grammar.insert, hread]
        refine ⟨rfl, ?_⟩
        rw [Grammar.definition?, Dict.find_put, if_pos rfl]
      · rw [Grammar.insert, hread]
        exact ⟨rfl, Definition.eq_overflow_of_read hread, rfl, rfl⟩
      · rw [Grammar.read_line_eq, hagain]
        exact ⟨rfl, rfl⟩
  · have hline := Grammar.read_line_eq grammar line
    rw [written_of_not_formed hformed] at hline
    have hreading : reading = .error (.malformedLine line) :=
      congrArg (fun outcome => outcome.1.result) hline
    have hchanged : changed = grammar := congrArg Prod.snd hline
    rw [hreading, hchanged]
    refine ⟨iff_of_false ?_ fun h => hformed h.1, fun _ => ⟨rfl, rfl, rfl⟩,
      fun h => absurd h hformed⟩
    rintro ⟨name, h⟩
    cases h

end RuleLine

end

end Bnf

namespace Bnf.RuleLine

/-- A line with a part of the separator in its name and another separator in its definition. -/
def overlapping : String :=
  " <a ::> ::= > ::= b \n"

/-- The line is read up to its first whole separator, and put together again it is read alike; and a
line that ends with the separator is refused. -/
theorem line_format_exact_overlapping :
    (Formed (Text.strip overlapping.toList) ∧ IsLeast (nameEnds (Text.strip overlapping.toList)) 5 ∧
      (∃ name, (Grammar.empty.readLine overlapping).1.result = .ok name) ∧
      (Grammar.empty.readLine ("<" ++ "a ::" ++ "> ::= " ++ "> ::= b")).2 =
        (Grammar.empty.insert "a ::" "> ::= b").2) ∧
    ¬ Formed (Text.strip " <a> ::= ".toList) ∧
      (Grammar.empty.readLine " <a> ::= ").1.result = .error (.malformedLine " <a> ::= ") := by
  have htext : Text.strip overlapping.toList = ['<', 'a', ' ', ':', ':', '>', ' ', ':', ':', '=',
      ' ', '>', ' ', ':', ':', '=', ' ', 'b'] := by
    cbv
  have hleast : IsLeast (nameEnds (Text.strip overlapping.toList)) 5 := by
    rw [htext]
    refine ⟨⟨by decide, (by decide : separator <+: _)⟩, ?_⟩
    rintro place ⟨hpositive, hplace⟩
    by_contra hless
    have hnot : ∀ earlier < 5, ¬ separator <+: List.drop earlier ['<', 'a', ' ', ':', ':', '>', ' ',
        ':', ':', '=', ' ', '>', ' ', ':', ':', '=', ' ', 'b'] := by decide
    exact hnot place (Nat.lt_of_not_le hless) hplace
  have hformed : Formed (Text.strip overlapping.toList) := by
    refine ⟨?_, ?_, ⟨_, hleast.1⟩⟩ <;> rw [htext] <;> decide
  have hrefused : ¬ Formed (Text.strip " <a> ::= ".toList) := by
    have hnone : (read? " <a> ::= ".toList).isSome = false := by cbv
    rw [← read_isSome_iff, hnone]
    exact Bool.false_ne_true
  have hname : nameAt (Text.strip overlapping.toList) 5 = "a ::" := by
    rw [htext]
    cbv
  have hsource : sourceAt (Text.strip overlapping.toList) 5 = "> ::= b" := by
    rw [htext]
    cbv
  have hreadable : Definition.Readable "> ::= b" := by
    rw [Definition.readable_iff]
    cbv
  obtain ⟨-, haccepts, -, hread⟩ := line_format_exact ⟨⟨0, 0⟩, [], Grammar.empty⟩ overlapping
  have hok := haccepts.2 ⟨hformed, fun place hplace => by
    rwa [hplace.unique hleast, hsource]⟩
  obtain ⟨place, hplace, hwritten⟩ := hread hformed
  cases hplace.unique hleast
  obtain ⟨-, -, -, -, -, -, hagain⟩ := hwritten _ _ hname.symm hsource.symm
  exact ⟨⟨hformed, hleast, hok, (hagain Grammar.empty).2⟩, hrefused,
    ((line_format_exact ⟨⟨0, 0⟩, [], Grammar.empty⟩ " <a> ::= ").2.2.1 hrefused).1⟩

/-- A formed line whose definition cannot be read is neither accepted nor refused as malformed, and
its definition stays. -/
theorem formed_not_accepted :
    Formed (Text.strip "<symbol> ::= [\\U80000000]".toList) ∧
    (Grammar.empty.readLine "<symbol> ::= [\\U80000000]").1.result = .error .codePointOverflow ∧
    (Grammar.empty.readLine "<symbol> ::= [\\U80000000]").2.names = ["symbol"] := by
  refine ⟨?_, ?_, ?_⟩
  · rw [← read_isSome_iff]
    cbv
  · cbv
  · cbv

end Bnf.RuleLine
