/-! # Texts of TOML

Four notations: between double quotes with escapes, between single quotes without, and both
over several lines between tripled quotes.  Every line break is read as a line feed.
-/
namespace Provisioning
namespace Toml

/-- The white space inside a line. -/
def isSpace (c : Char) : Bool := c == ' ' || c == '\t'

/-- Drops white space in front. -/
def skipSpace (cs : List Char) : List Char := cs.dropWhile isSpace

/-- Whether a character may stand in a comment or a text: all but control characters,
among which a tabulator counts as text. -/
def isPrintable (c : Char) : Bool := c == '\t' || (0x20 ≤ c.toNat && c.toNat != 0x7F)

/-- What follows a line break, if there is one in front. -/
def lineBreak? : List Char → Option (List Char)
  | '\n' :: cs => some cs
  | '\r' :: '\n' :: cs => some cs
  | _ => none

/-- The value of a hexadecimal digit. -/
def hexDigit? (c : Char) : Option Nat :=
  if '0' ≤ c ∧ c ≤ '9' then some (c.toNat - 48)
  else if 'a' ≤ c ∧ c ≤ 'f' then some (c.toNat - 87)
  else if 'A' ≤ c ∧ c ≤ 'F' then some (c.toNat - 55)
  else none

/-- The character whose code point is written in hexadecimal digits. -/
def codePoint? (digits : List Char) : Option Char := do
  let values ← digits.mapM hexDigit?
  let n := values.foldl (fun n v => 16 * n + v) 0
  if n.isValidChar then some (Char.ofNat n) else none

/-- Reads what stands behind a backslash: a letter for a character, or its code point in
four or eight digits. -/
def readEscape? : List Char → Option (Char × List Char)
  | 'b' :: cs => some ('\x08', cs)
  | 't' :: cs => some ('\t', cs)
  | 'n' :: cs => some ('\n', cs)
  | 'f' :: cs => some ('\x0c', cs)
  | 'r' :: cs => some ('\r', cs)
  | '"' :: cs => some ('"', cs)
  | '\\' :: cs => some ('\\', cs)
  | 'u' :: a :: b :: c :: d :: cs => (codePoint? [a, b, c, d]).map fun x => (x, cs)
  | 'U' :: a :: b :: c :: d :: e :: f :: g :: h :: cs =>
    (codePoint? [a, b, c, d, e, f, g, h]).map fun x => (x, cs)
  | _ => none

theorem readEscape_length {cs : List Char} {p : Char × List Char} (h : readEscape? cs = some p) :
    p.2.length < cs.length := by
  unfold readEscape? at h
  split at h
  case h_8 | h_9 => obtain ⟨x, _, rfl⟩ := Option.map_eq_some_iff.mp h; simp; omega
  case h_10 => cases h
  all_goals cases h; simp

/-- Reads a text up to its closing double quote. -/
def readBasic? (cs : List Char) : Option (List Char × List Char) :=
  match cs with
  | [] => none
  | '"' :: rest => some ([], rest)
  | '\\' :: rest =>
    match h : readEscape? rest with
    | none => none
    | some (c, after) =>
      have := readEscape_length h
      (readBasic? after).map fun p => (c :: p.1, p.2)
  | c :: rest =>
    if isPrintable c then (readBasic? rest).map fun p => (c :: p.1, p.2) else none
termination_by cs.length
decreasing_by all_goals simp_all; try omega

/-- Reads a text up to its closing single quote. -/
def readLiteral? : List Char → Option (List Char × List Char)
  | [] => none
  | '\'' :: rest => some ([], rest)
  | c :: rest =>
    if isPrintable c then (readLiteral? rest).map fun p => (c :: p.1, p.2) else none

/-- What a run of quotes that closes a text over several lines leaves: up to two quotes in
front of the last three belong to the text. -/
def closing (quote : Char) : List Char → List Char × List Char
  | a :: b :: rest =>
    if a = quote then if b = quote then ([quote, quote], rest) else ([quote], b :: rest)
    else ([], a :: b :: rest)
  | [a] => if a = quote then ([quote], []) else ([], [a])
  | [] => ([], [])

/-- Whether only white space stands in front of the next line break. -/
def endsLine (cs : List Char) : Bool := (lineBreak? (skipSpace cs)).isSome

/-- Reads a text over several lines with escapes.  Behind a backslash at the end of a line,
white space and line breaks are skipped. -/
def readLongBasic? (skipping : Bool) (cs : List Char) : Option (List Char × List Char) :=
  match cs with
  | [] => none
  | '"' :: '"' :: '"' :: rest => some (closing '"' rest)
  | '\r' :: '\n' :: rest =>
    (readLongBasic? skipping rest).map fun p => (if skipping then p.1 else '\n' :: p.1, p.2)
  | '\n' :: rest =>
    (readLongBasic? skipping rest).map fun p => (if skipping then p.1 else '\n' :: p.1, p.2)
  | '\\' :: rest =>
    if endsLine rest then readLongBasic? true rest
    else
      match h : readEscape? rest with
      | none => none
      | some (c, after) =>
        have := readEscape_length h
        (readLongBasic? false after).map fun p => (c :: p.1, p.2)
  | c :: rest =>
    if skipping && isSpace c then readLongBasic? true rest
    else if isPrintable c then (readLongBasic? false rest).map fun p => (c :: p.1, p.2)
    else none
termination_by cs.length
decreasing_by all_goals simp_all; try omega

/-- Reads a text over several lines without escapes. -/
def readLongLiteral? : List Char → Option (List Char × List Char)
  | [] => none
  | '\'' :: '\'' :: '\'' :: rest => some (closing '\'' rest)
  | '\r' :: '\n' :: rest => (readLongLiteral? rest).map fun p => ('\n' :: p.1, p.2)
  | c :: rest =>
    if c = '\n' || isPrintable c then (readLongLiteral? rest).map fun p => (c :: p.1, p.2)
    else none

/-- Drops a line break directly behind the opening of a text over several lines. -/
def dropLineBreak (cs : List Char) : List Char := (lineBreak? cs).getD cs

/-- Reads a text in any of the four notations. -/
def readText? (cs : List Char) : Option (String × List Char) :=
  let result := match cs with
    | '"' :: '"' :: '"' :: rest => readLongBasic? false (dropLineBreak rest)
    | '\'' :: '\'' :: '\'' :: rest => readLongLiteral? (dropLineBreak rest)
    | '"' :: rest => readBasic? rest
    | '\'' :: rest => readLiteral? rest
    | _ => none
  result.map fun p => (String.ofList p.1, p.2)

end Toml
end Provisioning
