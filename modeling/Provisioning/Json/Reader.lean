import Provisioning.Json.Number

/-! # Reading JSON

A strict reader: no comments, no trailing commas, nothing behind the document but white
space, no control characters inside texts, no half of a surrogate pair, and at most 127
arrays and objects inside one another.
-/
namespace Provisioning
namespace Json

/-- The white space of JSON. -/
def isSpace (c : Char) : Bool := c == ' ' || c == '\n' || c == '\t' || c == '\r'

/-- Drops white space in front. -/
def skipSpace (cs : List Char) : List Char := cs.dropWhile isSpace

/-- The value of a hexadecimal digit. -/
def hexValue? (c : Char) : Option Nat :=
  if '0' ≤ c ∧ c ≤ '9' then some (c.toNat - 48)
  else if 'a' ≤ c ∧ c ≤ 'f' then some (c.toNat - 87)
  else if 'A' ≤ c ∧ c ≤ 'F' then some (c.toNat - 55)
  else none

/-- The value of four hexadecimal digits. -/
def unit? (a b c d : Char) : Option Nat := do
  let a ← hexValue? a
  let b ← hexValue? b
  let c ← hexValue? c
  let d ← hexValue? d
  some (((a * 16 + b) * 16 + c) * 16 + d)

/-- The first of the two units of a character beyond the first plane. -/
def isLeading (n : Nat) : Bool := 0xD800 ≤ n && n < 0xDC00

/-- The second of the two units. -/
def isTrailing (n : Nat) : Bool := 0xDC00 ≤ n && n < 0xE000

/-- The character that a letter behind a backslash stands for. -/
def escaped? : Char → Option Char
  | '"' => some '"'
  | '\\' => some '\\'
  | '/' => some '/'
  | 'b' => some '\x08'
  | 'f' => some '\x0c'
  | 'n' => some '\n'
  | 'r' => some '\r'
  | 't' => some '\t'
  | _ => none

/-- Reads a text up to its closing quote. -/
def readText? : List Char → Option (List Char × List Char)
  | [] => none
  | '\\' :: 'u' :: a :: b :: c :: d :: '\\' :: 'u' :: e :: f :: g :: h :: cs => do
    let n ← unit? a b c d
    if isLeading n then
      let m ← unit? e f g h
      if isTrailing m then
        let (s, rest) ← readText? cs
        some (Char.ofNat (0x10000 + (n - 0xD800) * 0x400 + (m - 0xDC00)) :: s, rest)
      else none
    else if isTrailing n then none
    else
      let (s, rest) ← readText? ('\\' :: 'u' :: e :: f :: g :: h :: cs)
      some (Char.ofNat n :: s, rest)
  | '\\' :: 'u' :: a :: b :: c :: d :: cs => do
    let n ← unit? a b c d
    if isLeading n || isTrailing n then none
    else
      let (s, rest) ← readText? cs
      some (Char.ofNat n :: s, rest)
  | '\\' :: c :: cs => do
    let c ← escaped? c
    let (s, rest) ← readText? cs
    some (c :: s, rest)
  | c :: cs =>
    if c = '"' then some ([], cs)
    else if c = '\\' || c.toNat < 0x20 then none
    else do
      let (s, rest) ← readText? cs
      some (c :: s, rest)

/-- How many arrays and objects may stand inside one another. -/
def maxDepth : Nat := 127

/-- Reads a given word and stands for a document. -/
def readWord? (word : List Char) (meaning : Json) (cs : List Char) : Option (Json × List Char) :=
  if word.isPrefixOf cs then some (meaning, cs.drop word.length) else none

mutual
/-- Reads a document in which `depth` arrays and objects may still be opened, within a
number of steps. -/
def readValue? : Nat → Nat → List Char → Option (Json × List Char)
  | 0, _, _ => none
  | steps + 1, depth, cs =>
    match skipSpace cs with
    | [] => none
    | '"' :: cs => do
      let (s, rest) ← readText? cs
      some (text (String.ofList s), rest)
    | '[' :: cs =>
      match depth with
      | 0 => none
      | depth + 1 =>
        match skipSpace cs with
        | ']' :: rest => some (array [], rest)
        | cs => do
          let (items, rest) ← readItems? steps depth cs
          some (array items, rest)
    | '{' :: cs =>
      match depth with
      | 0 => none
      | depth + 1 =>
        match skipSpace cs with
        | '}' :: rest => some (object [], rest)
        | cs => do
          let (members, rest) ← readMembers? steps depth cs
          some (object members, rest)
    | c :: cs =>
      if c = 't' then readWord? ['t', 'r', 'u', 'e'] (boolean true) (c :: cs)
      else if c = 'f' then readWord? ['f', 'a', 'l', 's', 'e'] (boolean false) (c :: cs)
      else if c = 'n' then readWord? ['n', 'u', 'l', 'l'] null (c :: cs)
      else readNumber? (c :: cs)

/-- Reads the items of an array, at least one, and the closing bracket. -/
def readItems? : Nat → Nat → List Char → Option (List Json × List Char)
  | 0, _, _ => none
  | steps + 1, depth, cs => do
    let (item, rest) ← readValue? steps depth cs
    match skipSpace rest with
    | ',' :: rest => do
      let (items, rest) ← readItems? steps depth rest
      some (item :: items, rest)
    | ']' :: rest => some ([item], rest)
    | _ => none

/-- Reads the members of an object, at least one, and the closing brace. -/
def readMembers? : Nat → Nat → List Char → Option (List (String × Json) × List Char)
  | 0, _, _ => none
  | steps + 1, depth, cs =>
    match skipSpace cs with
    | '"' :: cs => do
      let (name, rest) ← readText? cs
      match skipSpace rest with
      | ':' :: rest => do
        let (item, rest) ← readValue? steps depth rest
        match skipSpace rest with
        | ',' :: rest => do
          let (members, rest) ← readMembers? steps depth rest
          some ((String.ofList name, item) :: members, rest)
        | '}' :: rest => some ([(String.ofList name, item)], rest)
        | _ => none
      | _ => none
    | _ => none
end

/-- Reads a whole text.  Every step uses up a character, so the length bounds the steps. -/
def parse? (s : String) : Option Json := do
  let cs := s.toList
  let (j, rest) ← readValue? (2 * cs.length + 1) maxDepth cs
  if (skipSpace rest).isEmpty then some j else none

end Json
end Provisioning
