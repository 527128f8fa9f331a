import Provisioning.Filter.Basic
import Provisioning.Filter.Error
import Provisioning.Text.Blank

/-! # Reading filters

Recursive descent over the characters of a text.  Every reader takes the text in front of
it and gives back what it read with the text behind it; a fault is placed by the text that
was left when it was met, and only the outermost reader turns that into an offset.
-/
namespace Provisioning
namespace Filter

/-- A fault, placed by the text that was left when it was met. -/
abbrev Fault := ReadError (List Char)

/-- Reads one given character. -/
def expect (wanted : Char) : List Char → Except Fault (List Char)
  | [] => .error .unexpectedEnd
  | c :: cs => if c = wanted then .ok cs else .error (.expected wanted c (c :: cs))

/-- The characters that may stand in the name of an attribute. -/
def isAttributeChar (c : Char) : Bool :=
  !(c == '=' || c == '~' || c == '<' || c == '>' || c == '(' || c == ')')

/-- Reads the name of an attribute, without the white space around it. -/
def readAttribute (cs : List Char) : Except Fault (String × List Char) :=
  match Text.trimmed (cs.takeWhile isAttributeChar) with
  | [] => .error (.missingAttribute cs)
  | name => .ok (String.ofList name, cs.dropWhile isAttributeChar)

/-- Reads the sign of a comparison. -/
def readComparison : List Char → Except Fault (Comparison × List Char)
  | [] => .error .unexpectedEnd
  | '=' :: cs => .ok (.equal, cs)
  | '~' :: '=' :: cs => .ok (.approx, cs)
  | '>' :: '=' :: cs => .ok (.atLeast, cs)
  | '<' :: '=' :: cs => .ok (.atMost, cs)
  | cs => .error (.invalidOperator cs)

/-- A value cut at its stars: one piece, and one more for each star. -/
structure Pieces where
  first : List Char
  more : List (List Char)
  deriving DecidableEq, Repr

/-- Puts a character in front of the first piece. -/
def Pieces.cons (c : Char) (p : Pieces) : Pieces := { p with first := c :: p.first }

/-- Puts a star, and so an empty piece, in front. -/
def Pieces.star (p : Pieces) : Pieces := ⟨[], p.first :: p.more⟩

/-- Reads a value up to its closing parenthesis, which is left standing.  A backslash takes
the meaning from the character behind it; with `stars` the value is cut at every star that
keeps its meaning. -/
def readValue (stars : Bool) : List Char → Except Fault (Pieces × List Char)
  | [] => .error .unexpectedEnd
  | ['\\'] => .error .unexpectedEnd
  | '\\' :: c :: cs => do
    let (p, rest) ← readValue stars cs
    .ok (p.cons c, rest)
  | c :: cs =>
    if c = ')' then .ok (⟨[], []⟩, c :: cs)
    else if c = '(' then .error (.unescapedParen (c :: cs))
    else if c = '*' && stars then do
      let (p, rest) ← readValue stars cs
      .ok (p.star, rest)
    else do
      let (p, rest) ← readValue stars cs
      .ok (p.cons c, rest)

/-- A part of a pattern; an empty piece is none. -/
def part? : List Char → Option String
  | [] => none
  | cs => some (String.ofList cs)

/-- What an equality with a value cut at its stars stands for. -/
def ofPieces (name : String) (p : Pieces) : Filter :=
  match p.first, p.more with
  | first, [] => item name .equal (String.ofList first)
  | [], [[]] => present name
  | first, piece :: more =>
    substring name
      { initial := part? first
        middle := ((piece :: more).dropLast).filterMap part?
        final := part? ((piece :: more).getLast (by simp)) }

/-- Reads an item: an attribute, a sign and a value. -/
def readItem (cs : List Char) : Except Fault (Filter × List Char) := do
  let (name, cs) ← readAttribute cs
  let (comparison, cs) ← readComparison cs
  let (p, rest) ← readValue (comparison = .equal) cs
  match comparison with
  | .equal => .ok (ofPieces name p, rest)
  | _ => .ok (item name comparison (String.ofList p.first), rest)

mutual
/-- Reads a filter in parentheses, with at most `depth` steps into it. -/
def readFilter : Nat → List Char → Except Fault (Filter × List Char)
  | 0, _ => .error .unexpectedEnd
  | depth + 1, cs => do
    let cs ← expect '(' cs
    let (f, rest) ←
      match Text.trimStart cs with
      | [] => .error .unexpectedEnd
      | '&' :: cs => do
        let (parts, rest) ← readList depth cs
        if parts.isEmpty then .error (.emptyList cs) else .ok (all parts, rest)
      | '|' :: cs => do
        let (parts, rest) ← readList depth cs
        if parts.isEmpty then .error (.emptyList cs) else .ok (any parts, rest)
      | '!' :: cs => do
        let (part, rest) ← readFilter depth (Text.trimStart cs)
        .ok (negate part, rest)
      | cs => readItem cs
    let rest ← expect ')' (Text.trimStart rest)
    .ok (f, rest)

/-- Reads filters as long as an opening parenthesis follows. -/
def readList : Nat → List Char → Except Fault (List Filter × List Char)
  | 0, cs => .ok ([], cs)
  | depth + 1, cs =>
    match Text.trimStart cs with
    | '(' :: cs => do
      let (f, rest) ← readFilter depth ('(' :: cs)
      let (fs, rest) ← readList depth rest
      .ok (f :: fs, rest)
    | cs => .ok ([], cs)
end

/-- Reads a whole text.  Each step into a filter uses up a character, so the length of the
text bounds the depth. -/
def readText (cs : List Char) : Except Fault Filter := do
  let (f, rest) ← readFilter (cs.length + 1) (Text.trimStart cs)
  match Text.trimStart rest with
  | [] => .ok f
  | rest => .error (.trailingInput rest)

/-- Reads a filter from a text; a fault is placed by its character offset. -/
def parse (s : String) : Except (ReadError Nat) Filter :=
  let cs := s.toList
  (readText cs).mapError fun e => e.map fun rest => cs.length - rest.length

end Filter
end Provisioning
