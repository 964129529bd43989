import Bnf.Grammar.Loading

/-!
# Commands for a smart home

The grammar of Domolect 2.0, in which the lights, the appliances and the drawbridge of a home are
commanded. A hyphen stands for a space inside of a word, and numbers are written digit by digit.
The rule `augmented_command` describes a command together with the conditions when it begins and
until when it lasts.
-/

namespace Bnf.HomeCommands

/-- The rules of the grammar, one on each line: the commands, the barriers, the appliances and
lights, the thermal devices, and the conditions. -/
def lines : List String :=
  [r#"<augmented_command> ::= <command> ( "when" <condition> )? ( "until" <condition> )?"#,
   r#"<command> ::= <barrier_command> | <appliance_command> | <lighting_command> | <thermal_command>"#,

   r#"<barrier_command> ::= <barrier_action> <barrier>"#,
   r#"<barrier_action> ::= "open" | "close" | "lock" | "unlock""#,
   r#"<barrier> ::= "curtains" | "blinds" | "door" | "gate" | "garage-door" | "portcullis" | "drawbridge""#,

   r#"<appliance_command> ::= "turn" <appliance> <switch>"#,
   r#"<appliance> ::= "coffee-maker" | "dishwasher" | "oven" | "kettle" | "tv" | "laser-cannon" | "catapult""#,
   r#"<lighting_command> ::= "turn" <light> <switch>"#,
   r#"<light> ::= "lamp" | "lights" | "chandelier" | "torch" | "brazier""#,
   r#"<switch> ::= "on" | "off""#,

   r#"<thermal_command> ::= <location> "set" <thermal_device> "to" <temperature>"#,
   r#"<location> ::= "kitchen" | "living-room" | "bedroom" | "bathroom" | "garage" | "dungeon" | "great-hall""#,
   r#"<thermal_device> ::= "thermostat" | "oven" | "furnace" | "incinerator" | "cauldron""#,
   r#"<temperature> ::= <number> "K""#,
   r#"<number> ::= ( [1-9] [0-9]* ) | [0-9]"#,

   r#"<condition> ::= <temperature_condition> | <time>"#,
   r#"<temperature_condition> ::= "current-temperature" <comparison> <temperature>"#,
   r#"<comparison> ::= "less-than" | "greater-than" | "equal-to""#,
   r#"<time> ::= <hour> ":" <minute> <meridiem>"#,
   r#"<hour> ::= ( "0" [1-9] ) | ( "1" [0-2] )"#,
   r#"<minute> ::= [0-5] [0-9]"#,
   r#"<meridiem> ::= "am" | "pm""#]

/-- The lines of the file that holds the grammar. Each group of rules has a heading, and the whole
an introduction. -/
def file : List String :=
  ["# Domolect 2.0",
   "#",
   "# Commands for a (somewhat medieval) smart home. Terminals are lower case",
   "# words; hyphens stand for spaces inside a single word. Numbers are written",
   "# digit by digit, separated by spaces: \"6 9 9 K\", \"0 7 : 5 6 pm\".",
   ""] ++ lines.extract 0 2 ++
  ["", "# Barriers"] ++ lines.extract 2 5 ++
  ["", "# Appliances and lights"] ++ lines.extract 5 10 ++
  ["", "# Thermal devices"] ++ lines.extract 10 15 ++
  ["", "# Conditions"] ++ lines.extract 15 22

/-- The name under which the grammar is announced. -/
def fileName : String := "domolect.bnf"

/-- The rule that describes a whole command. -/
def startRule : String := "augmented_command"

variable [UnicodeData]

/-- The loading of the file. -/
def loaded : Loaded :=
  Grammar.empty.load (file.map String.toList)

/-- The grammar. -/
def grammar : Grammar :=
  Grammar.ofLines (file.map String.toList)

end Bnf.HomeCommands
