import Bnf.Text.Quoted

/-!
# Faults

The ways in which an operation on grammars ends without an answer, and the sentence that reports
each of them.
-/

namespace Bnf

/-- Why an operation gave no answer. -/
inductive Fault where
  /-- A rule was needed that the grammar does not define. -/
  | undefinedRule (name : String)
  /-- The rules lead back to themselves along this chain, which ends where it begins. -/
  | recursiveRule (cycle : List String)
  /-- A rule was to be removed that has a source but could never be read. -/
  | absentRule (name : String)
  /-- A line is not of the form of a rule. -/
  | malformedLine (line : String)
  /-- A bracketed text names a code point that is larger than any integer of 32 bits. -/
  | codePointOverflow
  /-- A token before the first one was asked for. -/
  | beforeFirstToken
  /-- A match entered more rules inside of each other than were allowed. -/
  | nestingExceeded
  /-- A conversation has nowhere to read from or to write to. -/
  | missingStream
  /-- The path of a file holds the null character. -/
  | nullInPath
  /-- A file is not encoded as it should be. -/
  | undecodable
  /-- A file was to be loaded, but none was named. -/
  | blankFile
  /-- A rule was to be looked up, but none was named. -/
  | blankRule
  /-- An event was to be shown or not, but no level was named. -/
  | blankLevel
  /-- A test case has fewer fields than it should have. -/
  | fieldsMissing (expected found : Nat)
  /-- A test case has more fields than it should have. -/
  | fieldsLeft (expected : Nat)
  deriving Repr, DecidableEq

/-- The sentence that reports a fault. -/
def Fault.message [UnicodeData] : Fault → String
  | undefinedRule name => "Rule " ++ name ++ " not found."
  | recursiveRule cycle =>
    "Recursive rules are not supported: " ++
      " -> ".intercalate (cycle.map fun name => "<" ++ name ++ ">")
  | absentRule name => String.ofList (Text.quoted name.toList)
  | malformedLine line => "Syntax error on line `" ++ line ++ "'"
  | codePointOverflow => "int too large to convert to C int"
  | beforeFirstToken => "list index out of range"
  | nestingExceeded => "rules are nested too deeply"
  | missingStream => "Input and output streams must be non-null."
  | nullInPath => "embedded null byte"
  | undecodable => "the file is not valid UTF-8"
  | blankFile => "expected str, bytes or os.PathLike object, not list"
  | blankRule => "can only concatenate str (not \"list\") to str"
  | blankLevel => "'>=' not supported between instances of 'list' and 'int'"
  | fieldsMissing expected found =>
    "not enough values to unpack (expected " ++ toString expected ++ ", got " ++ toString found ++
      ")"
  | fieldsLeft expected => "too many values to unpack (expected " ++ toString expected ++ ")"

end Bnf
