import Provisioning.Filter.Basic

/-! # Printing filters

The written form of a filter: every filter stands in parentheses, and the characters that
have a meaning inside a value are written behind a backslash.
-/
namespace Provisioning
namespace Filter

/-- The characters with a meaning of their own inside a value. -/
def isSpecial (c : Char) : Bool := c == '(' || c == ')' || c == '*' || c == '\\'

/-- A value with its special characters behind backslashes. -/
def escape : List Char → List Char
  | [] => []
  | c :: cs => if isSpecial c then '\\' :: c :: escape cs else c :: escape cs

/-- The sign of a comparison. -/
def sign : Comparison → List Char
  | .equal => ['=']
  | .approx => ['~', '=']
  | .atLeast => ['>', '=']
  | .atMost => ['<', '=']

/-- A part of a pattern that may be missing. -/
def optionalPart : Option String → List Char
  | some part => escape part.toList
  | none => []

/-- A pattern: its parts set apart by stars. -/
def patternChars (p : Pattern) : List Char :=
  optionalPart p.initial ++ '*' :: p.middle.flatMap (fun part => escape part.toList ++ ['*']) ++
    optionalPart p.final

mutual
/-- The written form of a filter. -/
def chars : Filter → List Char
  | all parts => '(' :: '&' :: charsAll parts ++ [')']
  | any parts => '(' :: '|' :: charsAll parts ++ [')']
  | negate part => '(' :: '!' :: part.chars ++ [')']
  | present name => '(' :: name.toList ++ ['=', '*', ')']
  | item name comparison value =>
    '(' :: name.toList ++ sign comparison ++ escape value.toList ++ [')']
  | substring name pattern =>
    '(' :: name.toList ++ '=' :: patternChars pattern ++ [')']

/-- The written forms of a list of filters, one after the other. -/
def charsAll : List Filter → List Char
  | [] => []
  | p :: rest => p.chars ++ charsAll rest
end

/-- The written form of a filter as a text. -/
def render (f : Filter) : String := String.ofList f.chars

end Filter
end Provisioning
