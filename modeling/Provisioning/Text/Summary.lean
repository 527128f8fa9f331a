import Provisioning.Text.Quoted

/-! # One-line summaries

The line that describes a value to an operator: its name and its fields between braces, in
a fixed order, closed by two dots when there is more than is shown.
-/
namespace Provisioning
namespace Text

/-- One field of a summary. -/
def summaryField (f : String × String) : String := f.1 ++ ": " ++ f.2

/-- A summary that shows every field. -/
def summary (name : String) (fields : List (String × String)) : String :=
  name ++ " \x7b " ++ commaSeparated (fields.map summaryField) ++ " \x7d"

/-- A summary that leaves something out. -/
def openSummary (name : String) (fields : List (String × String)) : String :=
  name ++ " \x7b " ++ commaSeparated (fields.map summaryField ++ [".."]) ++ " \x7d"

/-- A set of shown items between braces. -/
def braced (items : List String) : String := "\x7b" ++ commaSeparated items ++ "\x7d"

/-- A truth value as a word. -/
def shownBool (b : Bool) : String := if b then "true" else "false"

end Text
end Provisioning
