import Provisioning.Text.HiddenTable
import Provisioning.Text.Ranges

/-! # Quoted text

How a text is shown between double quotes: backslash, double quote, tab, line feed,
carriage return and the null character get a letter of their own, every other character
that would not show as itself is spelled by its code point.
-/
namespace Provisioning
namespace Text

/-- Whether a character does not show as itself. -/
def isHidden (c : Char) : Bool :=
  if 0x20 ≤ c.toNat && c.toNat < 0x7F then false else inRanges hiddenRanges c.toNat

/-- A code point in lower-case hexadecimal digits, without leading zeros. -/
def hexDigits (n : Nat) : List Char := Nat.toDigits 16 n

/-- The written form of one character. -/
def quoteChar (c : Char) : List Char :=
  if c = '\x00' then ['\\', '0']
  else if c = '\t' then ['\\', 't']
  else if c = '\r' then ['\\', 'r']
  else if c = '\n' then ['\\', 'n']
  else if c = '\\' then ['\\', '\\']
  else if c = '"' then ['\\', '"']
  else if isHidden c then '\\' :: 'u' :: '{' :: hexDigits c.toNat ++ ['}']
  else [c]

/-- The text between double quotes. -/
def quoted (s : String) : String :=
  String.ofList ('"' :: s.toList.flatMap quoteChar ++ ['"'])

/-- Texts set apart by a comma and a space. -/
def commaSeparated (items : List String) : String := String.intercalate ", " items

/-- A list of texts, each quoted, between square brackets. -/
def quotedList (items : List String) : String :=
  "[" ++ commaSeparated (items.map quoted) ++ "]"

/-- How an optional field is shown: its content marked as present, or a word for none. -/
def shownOption (item : Option String) : String :=
  match item with
  | some text => "Some(" ++ text ++ ")"
  | none => "None"

end Text
end Provisioning
