import Provisioning.Decimal.Layout
import Provisioning.Json.Basic
import Provisioning.Text.Quoted

/-! # Writing JSON

The compact form: no white space, texts with the shortest escapes, reals as stored text.
JSON has no word for a real that is no number or infinite; such a real is written as null.
-/
namespace Provisioning
namespace Json

/-- Two lower-case hexadecimal digits. -/
def hexByte (n : Nat) : List Char :=
  [Nat.digitChar (n / 16 % 16), Nat.digitChar (n % 16)]

/-- The written form of a character inside a text. -/
def writeChar (c : Char) : List Char :=
  if c = '"' then ['\\', '"']
  else if c = '\\' then ['\\', '\\']
  else if c = '\x08' then ['\\', 'b']
  else if c = '\x0c' then ['\\', 'f']
  else if c = '\n' then ['\\', 'n']
  else if c = '\r' then ['\\', 'r']
  else if c = '\t' then ['\\', 't']
  else if c.toNat < 0x20 then '\\' :: 'u' :: '0' :: '0' :: hexByte c.toNat
  else [c]

/-- A text between quotes. -/
def writeText (s : String) : String :=
  String.ofList ('"' :: s.toList.flatMap writeChar ++ ['"'])

mutual
/-- The compact form of a document. -/
def compact : Json → String
  | null => "null"
  | boolean b => if b then "true" else "false"
  | integer n => toString n
  | real x => if x.isNaN || x.isInf then "null" else Decimal.stored x
  | text s => writeText s
  | array items => "[" ++ String.intercalate "," (compactItems items) ++ "]"
  | object members => "\x7b" ++ String.intercalate "," (compactMembers members) ++ "\x7d"

/-- The compact forms of the items of an array. -/
def compactItems : List Json → List String
  | [] => []
  | j :: rest => j.compact :: compactItems rest

/-- The compact forms of the members of an object. -/
def compactMembers : List (String × Json) → List String
  | [] => []
  | (name, j) :: rest => (writeText name ++ ":" ++ j.compact) :: compactMembers rest
end

end Json
end Provisioning
