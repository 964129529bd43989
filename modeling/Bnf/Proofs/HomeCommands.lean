import Bnf.HomeCommands
import Bnf.Proofs.Memory
import Bnf.Proofs.Recognition
import Bnf.Proofs.RuleLine
import Bnf.UnicodeData.Version14
import Mathlib

/-!
# Home commands are judged by their language

The grammar of home commands loses nothing by its ordered choices, although two of its commands
begin with the same word and the two ways to write a number overlap. `definitions` is what its lines
read; comments and blank lines around them would make no difference (`Grammar.load_filter`). Every
rule is recognised before everything that may follow, with two exceptions: a number goes on as long
as digits follow, so it is recognised before what is no digit (`number`), and a command with
conditions is recognised before nothing (`augmented_command`). The commands for appliances and for
lights give way to each other because both are three words long. Hence every sentence is judged, and
it is valid exactly if it belongs to the rule: `judged_by_language`.
-/

namespace Bnf.HomeCommands

/-! ## The definitions -/

/-- The definition that demands one of these words. -/
def oneOf (literals : List String) : Definition :=
  literals.map fun literal => [.terminal literal]

/-- The names of the rules with their definitions. -/
def definitions : List (String × Definition) :=
  [("augmented_command",
      [[.reference "command", .optional (.group [[.terminal "when", .reference "condition"]]),
        .optional (.group [[.terminal "until", .reference "condition"]])]]),
   ("command",
      [[.reference "barrier_command"], [.reference "appliance_command"],
       [.reference "lighting_command"], [.reference "thermal_command"]]),
   ("barrier_command", [[.reference "barrier_action", .reference "barrier"]]),
   ("barrier_action", oneOf ["open", "close", "lock", "unlock"]),
   ("barrier",
      oneOf ["curtains", "blinds", "door", "gate", "garage-door", "portcullis", "drawbridge"]),
   ("appliance_command", [[.terminal "turn", .reference "appliance", .reference "switch"]]),
   ("appliance",
      oneOf ["coffee-maker", "dishwasher", "oven", "kettle", "tv", "laser-cannon", "catapult"]),
   ("lighting_command", [[.terminal "turn", .reference "light", .reference "switch"]]),
   ("light", oneOf ["lamp", "lights", "chandelier", "torch", "brazier"]),
   ("switch", oneOf ["on", "off"]),
   ("thermal_command",
      [[.reference "location", .terminal "set", .reference "thermal_device", .terminal "to",
        .reference "temperature"]]),
   ("location",
      oneOf ["kitchen", "living-room", "bedroom", "bathroom", "garage", "dungeon", "great-hall"]),
   ("thermal_device", oneOf ["thermostat", "oven", "furnace", "incinerator", "cauldron"]),
   ("temperature", [[.reference "number", .terminal "K"]]),
   ("number",
      [[.group [[.charClass "[1-9]", .repeated (.charClass "[0-9]")]]], [.charClass "[0-9]"]]),
   ("condition", [[.reference "temperature_condition"], [.reference "time"]]),
   ("temperature_condition",
      [[.terminal "current-temperature", .reference "comparison", .reference "temperature"]]),
   ("comparison", oneOf ["less-than", "greater-than", "equal-to"]),
   ("time", [[.reference "hour", .terminal ":", .reference "minute", .reference "meridiem"]]),
   ("hour",
      [[.group [[.terminal "0", .charClass "[1-9]"]]],
       [.group [[.terminal "1", .charClass "[0-2]"]]]]),
   ("minute", [[.charClass "[0-5]", .charClass "[0-9]"]]),
   ("meridiem", oneOf ["am", "pm"])]

section

variable [UnicodeData]

/-- A line is read by its alternatives, if none of its characters is too large. -/
theorem defined_of_tree {line : String} {chars : List Char} {entry : String × Definition}
    (hline : line = String.ofList chars)
    (h : (RuleLine.read? chars).map (fun written =>
      (String.ofList written.1, (Nesting.alternatives written.2).map Production.tree)) = some entry)
    (hoverflows : Definition.overflows entry.2 = false) :
    RuleLine.defined? line.toList = some entry := by
  obtain ⟨⟨name, source⟩, hread, rfl⟩ := Option.map_eq_some_iff.1 h
  rw [← Definition.tree_eq_map] at hoverflows
  rw [hline, String.toList_ofList, RuleLine.defined?, RuleLine.written?, hread]
  simp only [Option.map_some, Option.bind_eq_bind, Option.bind_some, String.toList_ofList]
  rw [Definition.read_eq_checked, hoverflows, Definition.tree_eq_map]
  rfl

/-- The lines of the grammar write these definitions, in this order. -/
theorem lines_read :
    List.Forall₂ (fun line entry => RuleLine.defined? line = some entry)
      (lines.map String.toList) definitions := by
  rw [List.forall₂_map_left_iff]
  simp only [lines, definitions, List.forall₂_cons, List.Forall₂.nil, and_true]
  and_intros
  all_goals exact defined_of_tree rfl (by cbv) (by cbv)

/-- The file holds these lines, and for the rest comments and blank lines. -/
theorem filter_file :
    (file.map String.toList).filter (fun line => !RuleLine.isSkipped (Text.strip line)) =
      lines.map String.toList := by
  -- A line that writes a rule is not passed over.
  have hrule : ∀ line ∈ lines, RuleLine.isSkipped (Text.strip line.toList) = false := by
    intro line hline
    obtain ⟨entry, hentry⟩ : ∃ entry, RuleLine.defined? line.toList = some entry := by
      have hread := lines_read
      rw [List.forall₂_map_left_iff, List.forall₂_iff_get] at hread
      obtain ⟨⟨place, hplace⟩, rfl⟩ := List.get_of_mem hline
      exact ⟨_, hread.2 place hplace (hread.1 ▸ hplace)⟩
    by_contra hskipped
    rw [RuleLine.defined?, RuleLine.written_of_skipped (Bool.of_not_eq_false hskipped)] at hentry
    cases hentry
  have hrules (start stop : Nat) : ((lines.extract start stop).map String.toList).filter
      (fun line => !RuleLine.isSkipped (Text.strip line)) =
        (lines.extract start stop).map String.toList := by
    refine List.filter_eq_self.2 fun chars hchars => ?_
    obtain ⟨line, hline, rfl⟩ := List.mem_map.1 hchars
    rw [hrule line ((List.drop_subset _ _) (List.mem_of_mem_take hline))]
    rfl
  simp only [file, List.map_append, List.filter_append, hrules]
  rfl

/-- The grammar has these definitions and no others. -/
theorem definition_eq : grammar.definition? = fun name => definitions.lookup name := by
  rw [grammar, Grammar.ofLines, ← (Grammar.load_filter Grammar.empty _).1, filter_file]
  exact Grammar.definition_load lines_read (by decide)

/-- The grammar has what every grammar has. -/
theorem invariant_holds {holds : Grammar → Prop} (h : Grammar.Invariant holds) :
    holds grammar := by
  rw [grammar, Grammar.ofLines]
  exact h.load _ h.empty

theorem definition_of_lookup {name : String} {definition : Definition}
    (h : definitions.lookup name = some definition) :
    grammar.definition? name = some definition := by
  rw [definition_eq]
  exact h

/-- The names of the rules in an order in which each refers to later ones only. -/
def order : List String :=
  ["augmented_command", "command", "barrier_command", "barrier_action", "barrier",
   "appliance_command", "appliance", "lighting_command", "light", "switch", "thermal_command",
   "location", "thermal_device", "condition", "temperature_condition", "comparison",
   "temperature", "number", "time", "hour", "minute", "meridiem"]

/-- Every rule is usable: all that it refers to is defined, and nothing is recursive. -/
theorem usable {name : String} (h : name ∈ order) : grammar.Usable name := by
  refine Grammar.usable_of_in_order ?_ name h
  rw [definition_eq]
  decide

theorem mem_order_of_defines {name : String} (h : grammar.defines name = true) : name ∈ order := by
  rw [Grammar.defines, definition_eq] at h
  obtain ⟨entry, hmem, hname⟩ := List.lookup_isSome_iff.1 h
  have hall : ∀ entry ∈ definitions, entry.1 ∈ order := by decide
  exact eq_of_beq hname ▸ hall entry hmem

/-! ## Single words and sequences -/

/-- A rule for single words derives these words. -/
theorem derives_words {name : String} {literals word : List String}
    (hrule : definitions.lookup name = some (oneOf literals)) :
    Symbol.Derives grammar.definition? (.reference name) word ↔
      ∃ literal ∈ literals, word = [literal] := by
  rw [Symbol.derives_reference_iff (definition_of_lookup hrule)]
  simp [oneOf]

/-- A rule for single words begins with these words. -/
theorem begins_with_words {name : String} {literals : List String}
    (hrule : definitions.lookup name = some (oneOf literals)) :
    BeginsWith ((Symbol.reference name).Derives grammar.definition?) literals := by
  intro word hword
  obtain ⟨literal, hliteral, rfl⟩ := (derives_words hrule).1 hword
  exact ⟨literal, hliteral, [], rfl⟩

/-- A rule that is one sequence of symbols begins with what the first of them begins with. -/
theorem begins_with_sequence {name : String} {symbol : Symbol} {symbols : Production}
    {tokens : List String} (hrule : definitions.lookup name = some [symbol :: symbols])
    (h : BeginsWith (symbol.Derives grammar.definition?) tokens) :
    BeginsWith ((Symbol.reference name).Derives grammar.definition?) tokens :=
  .reference (definition_of_lookup hrule) (List.forall_mem_singleton.2 (h.cons symbols))

/-- A rule for single words is recognised, whatever may follow: two of its words have the same
length. -/
theorem recognised_words {name : String} {literals : List String}
    (hrule : definitions.lookup name = some (oneOf literals)) :
    (Symbol.reference name).Recognised grammar.definition? .univ := by
  refine Symbol.recognised_reference (definition_of_lookup hrule) (Definition.recognised ?_ ?_)
  · intro production hmem
    obtain ⟨literal, -, rfl⟩ := List.mem_map.1 hmem
    exact Production.recognised_cons (Symbol.recognised_terminal literal) Production.recognised_nil
  · refine List.pairwise_map.2 (List.pairwise_of_forall fun literal other => ?_)
    exact .of_length 1 (by simp) (by simp)

/-- A rule that is one sequence of symbols is recognised if the sequence is. -/
theorem recognised_sequence {name : String} {production : Production} {follow : Set String}
    (hrule : definitions.lookup name = some [production])
    (h : Production.Recognised grammar.definition? follow production) :
    (Symbol.reference name).Recognised grammar.definition? follow :=
  Symbol.recognised_reference (definition_of_lookup hrule) (Definition.recognised_singleton h)

/-- A rule that is one sequence of symbols is recognised if each of them is, whatever may follow. -/
theorem recognised_parts {name : String} {production : Production} {follow : Set String}
    (hrule : definitions.lookup name = some [production])
    (h : ∀ symbol ∈ production, symbol.Recognised grammar.definition? .univ) :
    (Symbol.reference name).Recognised grammar.definition? follow :=
  recognised_sequence hrule (Production.recognised_of_univ h)

/-! ## Numbers -/

/-- The first production of a number gives way to the second: a single digit with which one of its
words begins is a word of its own. -/
theorem number_gives_way (follow : Set String) :
    GivesWay follow
      (Production.Derives grammar.definition?
        [.group [[.charClass "[1-9]", .repeated (.charClass "[0-9]")]]])
      (Production.Derives grammar.definition? [.charClass "[0-9]"]) := by
  intro word other hword hother hagree
  obtain ⟨rest, digit, rfl, hdigit, -⟩ : ∃ rest digit, word = digit :: rest ∧
      Matching.patternAccepts "[1-9]" digit = true ∧
      Symbol.Derives grammar.definition? (.repeated (.charClass "[0-9]")) rest := by
    simpa using hword
  obtain ⟨single, -, rfl⟩ : ∃ single,
      Matching.patternAccepts "[0-9]" single = true ∧ other = [single] := by
    simpa using hother
  obtain rfl : digit = single := head_eq_of_agree hagree
  -- The group derives the digit without a lap.
  exact .cons (.group (.intro List.mem_cons_self (.cons (.charClass hdigit)
    (.cons (.none _) .nil)))) .nil

/-- A number is recognised before what is no digit. Its first production takes as many digits as
there are. -/
theorem number {follow : Set String}
    (hfollow : ∀ token ∈ follow, Matching.patternAccepts "[0-9]" token = false) :
    (Symbol.reference "number").Recognised grammar.definition? follow := by
  have hdigits : Disjoint (firsts (Symbol.Derives grammar.definition? (.charClass "[0-9]")))
      follow := by
    refine Set.disjoint_left.2 ?_
    rintro token ⟨rest, hderives⟩ htoken
    obtain ⟨digit, haccepts, heq⟩ := Symbol.derives_charClass_iff.1 hderives
    cases heq
    rw [hfollow token htoken] at haccepts
    cases haccepts
  have hlong : Production.Recognised grammar.definition? follow
      [.charClass "[1-9]", .repeated (.charClass "[0-9]")] :=
    Production.recognised_cons (Symbol.recognised_charClass "[1-9]")
      (Production.recognised_cons
        (Symbol.recognised_repeated (Symbol.recognised_charClass "[0-9]") hdigits)
        Production.recognised_nil)
  refine Symbol.recognised_reference (definition_of_lookup rfl)
    (Definition.recognised ?_ (List.pairwise_pair.2 (number_gives_way follow)))
  refine List.forall_mem_cons.2 ⟨?_, List.forall_mem_singleton.2 ?_⟩
  · exact Production.recognised_cons
      (Symbol.recognised_group (Definition.recognised_singleton hlong)) Production.recognised_nil
  · exact Production.recognised_cons (Symbol.recognised_charClass "[0-9]")
      Production.recognised_nil

/-- A temperature is recognised, whatever may follow: what follows its number is no digit. -/
theorem temperature : (Symbol.reference "temperature").Recognised grammar.definition? .univ := by
  refine recognised_sequence rfl (Production.recognised_cons (number fun token htoken => ?_)
    (Production.recognised_cons (Symbol.recognised_terminal "K") Production.recognised_nil))
  have hunit : token = "K" := by
    simpa [Production.followed, firsts] using htoken
  rw [hunit]
  cbv

/-! ## Commands -/

theorem barrier_command :
    (Symbol.reference "barrier_command").Recognised grammar.definition? .univ := by
  refine recognised_parts rfl ?_
  simp only [List.forall_mem_cons]
  exact ⟨recognised_words rfl, recognised_words rfl, List.forall_mem_nil _⟩

/-- The commands for appliances and for lights are recognised, whatever may follow. -/
theorem turn_command {name device : String} {devices : List String}
    (hrule : definitions.lookup name =
      some [[.terminal "turn", .reference device, .reference "switch"]])
    (hdevices : definitions.lookup device = some (oneOf devices)) :
    (Symbol.reference name).Recognised grammar.definition? .univ := by
  refine recognised_parts hrule ?_
  simp only [List.forall_mem_cons]
  exact ⟨Symbol.recognised_terminal "turn", recognised_words hdevices, recognised_words rfl,
    List.forall_mem_nil _⟩

/-- The commands for appliances and for lights are three words long. -/
theorem length_turn_command {name device : String} {devices : List String}
    (hrule : definitions.lookup name =
      some [[.terminal "turn", .reference device, .reference "switch"]])
    (hdevices : definitions.lookup device = some (oneOf devices)) {word : List String}
    (h : Symbol.Derives grammar.definition? (.reference name) word) : word.length = 3 := by
  have hswitch : definitions.lookup "switch" = some (oneOf ["on", "off"]) := rfl
  rw [Symbol.derives_reference_iff (definition_of_lookup hrule)] at h
  obtain ⟨rest, used, rfl, -, hrest⟩ : ∃ rest used, word = "turn" :: used :: rest ∧
      used ∈ devices ∧ (rest = ["on"] ∨ rest = ["off"]) := by
    simpa [derives_words hdevices, derives_words hswitch] using h
  rcases hrest with rfl | rfl <;> rfl

theorem thermal_command :
    (Symbol.reference "thermal_command").Recognised grammar.definition? .univ := by
  refine recognised_parts rfl ?_
  simp only [List.forall_mem_cons]
  exact ⟨recognised_words rfl, Symbol.recognised_terminal "set", recognised_words rfl,
    Symbol.recognised_terminal "to", temperature, List.forall_mem_nil _⟩

/-- A production that is a reference derives what the rule does. -/
theorem derives_single {name : String} {word : List String} :
    Production.Derives grammar.definition? [.reference name] word ↔
      Symbol.Derives grammar.definition? (.reference name) word := by
  simp

/-- A rule that only refers to other rules is recognised if these are, and if each gives way to
those after it. -/
theorem recognised_choice {name : String} {follow : Set String} (names : List String)
    (hrule : definitions.lookup name = some (names.map fun name => [.reference name]))
    (hnames : ∀ name ∈ names, (Symbol.reference name).Recognised grammar.definition? .univ)
    (hgives : names.Pairwise fun name other =>
      GivesWay follow ((Symbol.reference name).Derives grammar.definition?)
        ((Symbol.reference other).Derives grammar.definition?)) :
    (Symbol.reference name).Recognised grammar.definition? follow := by
  refine Symbol.recognised_reference (definition_of_lookup hrule) (Definition.recognised ?_ ?_)
  · intro production hmem
    obtain ⟨other, hother, rfl⟩ := List.mem_map.1 hmem
    exact Production.recognised_of_univ (List.forall_mem_singleton.2 (hnames other hother))
  · refine List.pairwise_map.2 (hgives.imp fun hgives word other => ?_)
    rw [derives_single, derives_single, derives_single]
    exact hgives word other

/-- A command is recognised, whatever may follow. Commands begin with different words, except for
appliances and lights, and these have the same length. -/
theorem command : (Symbol.reference "command").Recognised grammar.definition? .univ := by
  have hbarrier : BeginsWith ((Symbol.reference "barrier_command").Derives grammar.definition?)
      ["open", "close", "lock", "unlock"] := begins_with_sequence rfl (begins_with_words rfl)
  have happliance : BeginsWith ((Symbol.reference "appliance_command").Derives grammar.definition?)
      ["turn"] := begins_with_sequence rfl (BeginsWith.terminal "turn")
  have hlighting : BeginsWith ((Symbol.reference "lighting_command").Derives grammar.definition?)
      ["turn"] := begins_with_sequence rfl (BeginsWith.terminal "turn")
  have hthermal : BeginsWith ((Symbol.reference "thermal_command").Derives grammar.definition?)
      ["kitchen", "living-room", "bedroom", "bathroom", "garage", "dungeon", "great-hall"] :=
    begins_with_sequence rfl (begins_with_words rfl)
  have hturn : GivesWay .univ ((Symbol.reference "appliance_command").Derives grammar.definition?)
      ((Symbol.reference "lighting_command").Derives grammar.definition?) :=
    .of_length 3 (fun _ => length_turn_command rfl rfl) fun _ => length_turn_command rfl rfl
  refine recognised_choice
    ["barrier_command", "appliance_command", "lighting_command", "thermal_command"] rfl ?_ ?_
  · simp only [List.forall_mem_cons]
    exact ⟨barrier_command, turn_command rfl rfl, turn_command rfl rfl, thermal_command,
      List.forall_mem_nil _⟩
  · simp only [List.pairwise_cons, List.forall_mem_cons]
    exact ⟨⟨.of_begins_with hbarrier happliance (by simp),
        .of_begins_with hbarrier hlighting (by simp),
        .of_begins_with hbarrier hthermal (by simp), List.forall_mem_nil _⟩,
      ⟨hturn, .of_begins_with happliance hthermal (by simp), List.forall_mem_nil _⟩,
      ⟨.of_begins_with hlighting hthermal (by simp), List.forall_mem_nil _⟩,
      List.forall_mem_nil _, .nil⟩

/-! ## Conditions -/

/-- The productions of an hour are recognised, whatever may follow. -/
theorem digits (first pattern : String) : Production.Recognised grammar.definition? .univ
    [.group [[.terminal first, .charClass pattern]]] := by
  have halternative : Production.Recognised grammar.definition? .univ
      [.terminal first, .charClass pattern] :=
    Production.recognised_of_univ (List.forall_mem_cons.2 ⟨Symbol.recognised_terminal first,
      List.forall_mem_singleton.2 (Symbol.recognised_charClass pattern)⟩)
  exact Production.recognised_cons
    (Symbol.recognised_group (Definition.recognised_singleton halternative))
    Production.recognised_nil

/-- The productions of an hour begin with their first digits. -/
theorem begins_with_digits (first pattern : String) :
    BeginsWith (Production.Derives grammar.definition?
      [.group [[.terminal first, .charClass pattern]]]) [first] :=
  (BeginsWith.group
    (List.forall_mem_singleton.2 ((BeginsWith.terminal first).cons [.charClass pattern]))).cons []

theorem hour : (Symbol.reference "hour").Recognised grammar.definition? .univ := by
  refine Symbol.recognised_reference (definition_of_lookup rfl) (Definition.recognised ?_ ?_)
  · simp only [List.forall_mem_cons]
    exact ⟨digits "0" "[1-9]", digits "1" "[0-2]", List.forall_mem_nil _⟩
  · exact List.pairwise_pair.2
      (.of_begins_with (begins_with_digits "0" "[1-9]") (begins_with_digits "1" "[0-2]") (by simp))

theorem begins_with_hour :
    BeginsWith ((Symbol.reference "hour").Derives grammar.definition?) ["0", "1"] := by
  refine BeginsWith.reference (definition_of_lookup rfl) ?_
  simp only [List.forall_mem_cons]
  exact ⟨(begins_with_digits "0" "[1-9]").mono (by simp),
    (begins_with_digits "1" "[0-2]").mono (by simp), List.forall_mem_nil _⟩

theorem minute : (Symbol.reference "minute").Recognised grammar.definition? .univ := by
  refine recognised_parts rfl ?_
  simp only [List.forall_mem_cons]
  exact ⟨Symbol.recognised_charClass "[0-5]", Symbol.recognised_charClass "[0-9]",
    List.forall_mem_nil _⟩

theorem time : (Symbol.reference "time").Recognised grammar.definition? .univ := by
  refine recognised_parts rfl ?_
  simp only [List.forall_mem_cons]
  exact ⟨hour, Symbol.recognised_terminal ":", minute, recognised_words rfl, List.forall_mem_nil _⟩

theorem temperature_condition :
    (Symbol.reference "temperature_condition").Recognised grammar.definition? .univ := by
  refine recognised_parts rfl ?_
  simp only [List.forall_mem_cons]
  exact ⟨Symbol.recognised_terminal "current-temperature", recognised_words rfl, temperature,
    List.forall_mem_nil _⟩

theorem condition : (Symbol.reference "condition").Recognised grammar.definition? .univ := by
  refine recognised_choice ["temperature_condition", "time"] rfl ?_ ?_
  · exact List.forall_mem_cons.2 ⟨temperature_condition, List.forall_mem_singleton.2 time⟩
  · exact List.pairwise_pair.2
      (.of_begins_with (begins_with_sequence rfl (BeginsWith.terminal "current-temperature"))
        (begins_with_sequence rfl begins_with_hour) (by simp))

/-! ## Commands with conditions -/

/-- The group of a word and a condition begins with the word. -/
theorem begins_with_limit (word : String) :
    BeginsWith ((Symbol.group [[.terminal word, .reference "condition"]]).Derives
      grammar.definition?) [word] :=
  .group (List.forall_mem_singleton.2 ((BeginsWith.terminal word).cons [.reference "condition"]))

/-- An optional condition is recognised before what does not begin with its word. -/
theorem limit {follow : Set String} (word : String) (hfollow : word ∉ follow) :
    (Symbol.optional (.group [[.terminal word, .reference "condition"]])).Recognised
      grammar.definition? follow := by
  have halternative : Production.Recognised grammar.definition? follow
      [.terminal word, .reference "condition"] :=
    Production.recognised_of_univ (List.forall_mem_cons.2 ⟨Symbol.recognised_terminal word,
      List.forall_mem_singleton.2 condition⟩)
  refine Symbol.recognised_optional
    (Symbol.recognised_group (Definition.recognised_singleton halternative)) ?_
  exact (begins_with_limit word).disjoint_firsts (List.forall_mem_singleton.2 hfollow)

/-- A command with conditions is recognised before nothing. What follows the condition when it
begins, is the condition until when it lasts. -/
theorem augmented_command :
    (Symbol.reference "augmented_command").Recognised grammar.definition? ∅ := by
  have huntil : Production.Recognised grammar.definition? ∅
      [.optional (.group [[.terminal "until", .reference "condition"]])] :=
    Production.recognised_cons (limit "until" (by simp [Production.followed]))
      Production.recognised_nil
  refine recognised_sequence rfl (Production.recognised_cons (command.mono (Set.subset_univ _))
    (Production.recognised_cons (limit "when" ?_) huntil))
  -- After the first condition comes the word `until`, or nothing.
  rintro (⟨rest, hderives⟩ | ⟨-, hnothing⟩)
  · have hgroup := (Symbol.derives_optional_iff.1 hderives).resolve_left (List.cons_ne_nil _ _)
    have hword := (begins_with_limit "until").mem hgroup
    simp at hword
  · exact hnothing

/-! ## Every rule -/

/-- Every rule is recognised before nothing. -/
theorem recognised : ∀ name ∈ order,
    (Symbol.reference name).Recognised grammar.definition? ∅ := by
  have hlast {name : String} (h : (Symbol.reference name).Recognised grammar.definition? .univ) :
      (Symbol.reference name).Recognised grammar.definition? ∅ := h.mono (Set.empty_subset _)
  have hnumber : (Symbol.reference "number").Recognised grammar.definition? ∅ :=
    number fun _ hnothing => hnothing.elim
  simp only [order, List.forall_mem_cons]
  exact ⟨augmented_command, hlast command, hlast barrier_command, hlast (recognised_words rfl),
    hlast (recognised_words rfl), hlast (turn_command rfl rfl), hlast (recognised_words rfl),
    hlast (turn_command rfl rfl), hlast (recognised_words rfl), hlast (recognised_words rfl),
    hlast thermal_command, hlast (recognised_words rfl), hlast (recognised_words rfl),
    hlast condition, hlast temperature_condition, hlast (recognised_words rfl), hlast temperature,
    hnumber, hlast time, hlast hour, hlast minute, hlast (recognised_words rfl),
    List.forall_mem_nil _⟩

/-- Every sentence is judged by every rule of home commands, without a fault, and it is valid
exactly if the rule derives its words. -/
theorem judged_by_language (rule : String) (hrule : grammar.defines rule = true)
    (sentence : String) :
    ∃ valid, (grammar.validate sentence rule).1.result = .ok valid ∧
      (valid = true ↔
        Symbol.Derives grammar.definition? (.reference rule) (Grammar.words sentence)) := by
  have hconsistent := invariant_holds Grammar.consistent_invariant
  have hknows := invariant_holds Grammar.knows_invariant
  have horder := mem_order_of_defines hrule
  exact (usable horder).judges hconsistent hknows (recognised rule horder) sentence

end

/-- A temperature whose number has several digits is valid, although its first digit is a number
already. -/
theorem judged_by_language_temperature :
    grammar.defines "temperature" = true ∧
      (grammar.validate "2 9 5 K" "temperature").1.result = .ok true := by
  have hrule : grammar.defines "temperature" = true := by
    rw [Grammar.defines, definition_of_lookup rfl]
    rfl
  obtain ⟨valid, hresult, hvalid⟩ := judged_by_language "temperature" hrule "2 9 5 K"
  have hdigit (digit : String) (h : Matching.patternAccepts "[0-9]" digit = true) :
      Symbol.Derives grammar.definition? (.charClass "[0-9]") [digit] := .charClass h
  have hmore : Symbol.Derives grammar.definition? (.repeated (.charClass "[0-9]")) ["9", "5"] :=
    .more (hdigit "9" (by cbv)) (.more (hdigit "5" (by cbv)) (.none _))
  have hlong : Production.Derives grammar.definition?
      [.charClass "[1-9]", .repeated (.charClass "[0-9]")] ["2", "9", "5"] :=
    .cons (.charClass (by cbv)) (.cons hmore .nil)
  have hnumber : Symbol.Derives grammar.definition? (.reference "number") ["2", "9", "5"] :=
    .reference (definition_of_lookup rfl) (.intro List.mem_cons_self
      (.cons (.group (.intro (List.mem_singleton_self _) hlong)) .nil))
  have hwords : Grammar.words "2 9 5 K" = ["2", "9", "5", "K"] := by cbv
  have hderives : Symbol.Derives grammar.definition? (.reference "temperature")
      (Grammar.words "2 9 5 K") := by
    rw [hwords]
    exact .reference (definition_of_lookup rfl) (.intro (List.mem_singleton_self _)
      (.cons hnumber (.cons (.terminal "K") .nil)))
  exact ⟨hrule, by rw [hresult, hvalid.2 hderives]⟩

end Bnf.HomeCommands
