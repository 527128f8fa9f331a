import Provisioning.Toml.Scalar

/-! # Reading TOML

A strict reader: every line is a header or an assignment, with perhaps a comment behind it;
no key is assigned twice; fewer than eighty arrays and inline tables stand inside one
another, and fewer than eighty keys make up a dotted key.
-/
namespace Provisioning
namespace Toml

/-- Whether a character may stand in a key without quotes. -/
def isBareKey (c : Char) : Bool :=
  ('a' ≤ c && c ≤ 'z') || ('A' ≤ c && c ≤ 'Z') || Decimal.isDigit c || c == '_' || c == '-'

/-- Reads one key: between quotes, or bare. -/
def readKey? : List Char → Option (String × List Char)
  | '"' :: cs => (readBasic? cs).map fun p => (String.ofList p.1, p.2)
  | '\'' :: cs => (readLiteral? cs).map fun p => (String.ofList p.1, p.2)
  | cs =>
    let key := cs.takeWhile isBareKey
    if key.isEmpty then none else some (String.ofList key, cs.dropWhile isBareKey)

/-- The bound on nesting and on the parts of a dotted key. -/
def limit : Nat := 79

/-- Reads a dotted key of at most a number of parts, with white space around them: the keys
in front, the last key, and what follows. -/
def readPath? : Nat → List Char → Option (List String × String × List Char)
  | 0, _ => none
  | parts + 1, cs => do
    let (key, rest) ← readKey? (skipSpace cs)
    match skipSpace rest with
    | '.' :: rest => do
      let (path, last, rest) ← readPath? parts rest
      some (key :: path, last, rest)
    | rest => some ([], key, rest)

/-- Drops a comment. -/
def skipComment : List Char → List Char
  | '#' :: cs => cs.dropWhile isPrintable
  | cs => cs

/-- Drops white space, line breaks and comments in front; `inComment` says that a comment
has begun. -/
def skipBlank (inComment : Bool) : List Char → List Char
  | [] => []
  | '\n' :: cs => skipBlank false cs
  | '\r' :: cs =>
    match cs with
    | '\n' :: rest => skipBlank false rest
    | _ => '\r' :: cs
  | c :: cs =>
    if inComment then if isPrintable c then skipBlank true cs else c :: cs
    else if c = '#' then skipBlank true cs
    else if isSpace c then skipBlank false cs
    else c :: cs

mutual
/-- Reads a value in which `depth` arrays and inline tables may still be opened, within a
number of steps. -/
def readValue? : Nat → Nat → List Char → Option (Toml × List Char)
  | 0, _, _ => none
  | steps + 1, depth, cs =>
    match cs with
    | 't' :: 'r' :: 'u' :: 'e' :: rest => some (boolean true, rest)
    | 'f' :: 'a' :: 'l' :: 's' :: 'e' :: rest => some (boolean false, rest)
    | '[' :: rest =>
      match depth with
      | 0 => none
      | depth + 1 => (readItems? steps depth rest).map fun p => (array p.1, p.2)
    | '{' :: rest =>
      match depth with
      | 0 => none
      | depth + 1 =>
        match skipSpace rest with
        | '}' :: rest => some (table .inlined [], rest)
        | _ => do
          let (members, rest) ← readMembers? steps depth rest
          let entries ← inline? members
          some (table .inlined entries, rest)
    | c :: rest =>
      if c = '"' || c = '\'' then (readText? (c :: rest)).map fun p => (text p.1, p.2)
      else readScalar? (c :: rest)
    | [] => none

/-- Reads the items of an array and its closing bracket; a comma may follow the last item. -/
def readItems? : Nat → Nat → List Char → Option (List Toml × List Char)
  | 0, _, _ => none
  | steps + 1, depth, cs =>
    match skipBlank false cs with
    | ']' :: rest => some ([], rest)
    | cs => do
      let (item, rest) ← readValue? steps depth cs
      match skipBlank false rest with
      | ',' :: rest => do
        let (items, rest) ← readItems? steps depth rest
        some (item :: items, rest)
      | ']' :: rest => some ([item], rest)
      | _ => none

/-- Reads the members of an inline table, at least one, and its closing brace. -/
def readMembers? : Nat → Nat → List Char →
    Option (List (List String × String × Toml) × List Char)
  | 0, _, _ => none
  | steps + 1, depth, cs => do
    let (path, key, rest) ← readPath? limit cs
    match rest with
    | '=' :: rest => do
      let (item, rest) ← readValue? steps depth (skipSpace rest)
      match skipSpace rest with
      | ',' :: rest => do
        let (members, rest) ← readMembers? steps depth rest
        some ((path, key, item) :: members, rest)
      | '}' :: rest => some ([(path, key, item)], rest)
      | _ => none
    | _ => none
end

/-- Reads the rest of a line: white space, perhaps a comment, and the end of the line or of
the text. -/
def endLine? (cs : List Char) : Option (List Char) :=
  match skipComment (skipSpace cs) with
  | [] => some []
  | cs => lineBreak? cs

/-- Reads a statement up to the end of its line. -/
def readStatement? (steps : Nat) (cs : List Char) : Option (Statement × List Char) :=
  match cs with
  | '[' :: '[' :: rest => do
    let (path, key, rest) ← readPath? limit rest
    let rest ← expect? ']' rest
    let rest ← expect? ']' rest
    some (.header true path key, ← endLine? rest)
  | '[' :: rest => do
    let (path, key, rest) ← readPath? limit rest
    let rest ← expect? ']' rest
    some (.header false path key, ← endLine? rest)
  | _ => do
    let (path, key, rest) ← readPath? limit cs
    let rest ← expect? '=' rest
    let (item, rest) ← readValue? steps limit (skipSpace rest)
    some (.assignment path key item, ← endLine? rest)

/-- Adds the statements of a text to a document, within a number of steps. -/
def readStatements? : Nat → Draft → List Char → Option Draft
  | 0, _, _ => none
  | steps + 1, d, cs =>
    match skipBlank false cs with
    | [] => some d
    | cs => do
      let (s, rest) ← readStatement? (2 * cs.length + 1) cs
      readStatements? steps (← d.add? s) rest

/-- Drops a mark of the byte order in front. -/
def dropOrderMark : List Char → List Char
  | '\ufeff' :: cs => cs
  | cs => cs

/-- The entries of a whole text.  Every statement uses up a character, so the length bounds
their number. -/
def parse? (s : String) : Option Entries :=
  let cs := dropOrderMark s.toList
  (readStatements? (cs.length + 1) {} cs).map Draft.entries

end Toml
end Provisioning
