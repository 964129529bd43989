/-!
# Names of characters

Every printable character of ASCII has a name. The names of letters and digits follow a pattern, and
the others are listed in the order of their code points. Capital and small letters do not differ in
a name.
-/

namespace Bnf.Text

/-- The names of the digits. -/
def digitNames : List String :=
  ["ZERO", "ONE", "TWO", "THREE", "FOUR", "FIVE", "SIX", "SEVEN", "EIGHT", "NINE"]

/-- The names of the characters of ASCII that are neither letters nor digits. -/
def signNames : List (String × Char) :=
  [("SPACE", ' '), ("EXCLAMATION MARK", '!'), ("QUOTATION MARK", '"'), ("NUMBER SIGN", '#'),
   ("DOLLAR SIGN", '$'), ("PERCENT SIGN", '%'), ("AMPERSAND", '&'),
   ("APOSTROPHE", Char.ofNat 0x27), ("LEFT PARENTHESIS", '('), ("RIGHT PARENTHESIS", ')'),
   ("ASTERISK", '*'), ("PLUS SIGN", '+'), ("COMMA", ','), ("HYPHEN-MINUS", '-'),
   ("FULL STOP", '.'), ("SOLIDUS", '/'), ("COLON", ':'), ("SEMICOLON", ';'),
   ("LESS-THAN SIGN", '<'), ("EQUALS SIGN", '='), ("GREATER-THAN SIGN", '>'),
   ("QUESTION MARK", '?'), ("COMMERCIAL AT", '@'), ("LEFT SQUARE BRACKET", '['),
   ("REVERSE SOLIDUS", '\\'), ("RIGHT SQUARE BRACKET", ']'), ("CIRCUMFLEX ACCENT", '^'),
   ("LOW LINE", '_'), ("GRAVE ACCENT", Char.ofNat 0x60), ("LEFT CURLY BRACKET", Char.ofNat 0x7B),
   ("VERTICAL LINE", '|'), ("RIGHT CURLY BRACKET", Char.ofNat 0x7D), ("TILDE", '~')]

/-- The characters of ASCII that are called by a name, with their names in capitals. -/
def asciiNames : List (String × Char) :=
  signNames ++
    digitNames.zipIdx.map (fun (name, value) =>
      ("DIGIT " ++ name, Char.ofNat ('0'.toNat + value))) ++
    (List.range 26).flatMap fun place =>
      let capital := Char.ofNat ('A'.toNat + place)
      let small := Char.ofNat ('a'.toNat + place)
      [("LATIN CAPITAL LETTER " ++ String.singleton capital, capital),
       ("LATIN SMALL LETTER " ++ String.singleton capital, small)]

/-- The character of ASCII that has a name. -/
def asciiNamed? (name : List Char) : Option Char :=
  asciiNames.lookup (String.ofList (name.map Char.toUpper))

example : asciiNames.length = 95 := by decide

end Bnf.Text
