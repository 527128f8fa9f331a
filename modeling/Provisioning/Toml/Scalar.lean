import Provisioning.Decimal.Real
import Provisioning.Toml.Basic
import Provisioning.Toml.Text

/-! # Numbers and moments of TOML

Integers in four bases, real numbers, and dates and times.  Underscores may stand between
digits.  An integer must fit the signed 64-bit range, and a real number that is too great
for its format is refused.
-/
namespace Provisioning
namespace Toml

open Decimal (isDigit)

/-- Reads further digits behind a first one; an underscore must stand between two digits. -/
def moreDigits? (ok : Char → Bool) : List Char → Option (List Char × List Char)
  | [] => some ([], [])
  | '_' :: cs =>
    match cs with
    | [] => none
    | c :: rest => if ok c then (moreDigits? ok rest).map fun p => (c :: p.1, p.2) else none
  | c :: rest =>
    if ok c then (moreDigits? ok rest).map fun p => (c :: p.1, p.2) else some ([], c :: rest)

/-- Reads one or more digits. -/
def digits? (ok : Char → Bool) : List Char → Option (List Char × List Char)
  | [] => none
  | c :: cs => if ok c then (moreDigits? ok cs).map fun p => (c :: p.1, p.2) else none

/-- Reads a sign, if there is one. -/
def sign : List Char → List Char × List Char
  | '+' :: cs => (['+'], cs)
  | '-' :: cs => (['-'], cs)
  | cs => ([], cs)

/-- Reads a signed decimal integer without leading zeros. -/
def decimal? (cs : List Char) : Option (List Char × List Char) :=
  let (s, cs) := sign cs
  match cs with
  | '0' :: rest => some (s ++ ['0'], rest)
  | cs => (digits? isDigit cs).map fun p => (s ++ p.1, p.2)

/-- Reads digits of a base, up to the greatest 64-bit integer. -/
def based? (base : Nat) (ok : Char → Bool) (cs : List Char) : Option (Toml × List Char) := do
  let (ds, rest) ← digits? ok cs
  let values ← ds.mapM hexDigit?
  let n := values.foldl (fun n v => base * n + v) 0
  if (n : Int) ≤ Decimal.int64Max then some (integer n, rest) else none

/-- Reads an integer. -/
def readInteger? : List Char → Option (Toml × List Char)
  | '0' :: 'x' :: cs => based? 16 (fun c => (hexDigit? c).isSome) cs
  | '0' :: 'o' :: cs => based? 8 (fun c => '0' ≤ c && c ≤ '7') cs
  | '0' :: 'b' :: cs => based? 2 (fun c => c == '0' || c == '1') cs
  | cs => do
    let (ds, rest) ← decimal? cs
    let n ← Decimal.readInt64? ds
    some (integer n.toInt, rest)

/-- Reads a point and the digits behind it. -/
def fraction? : List Char → Option (List Char × List Char)
  | '.' :: cs => (digits? isDigit cs).map fun p => ('.' :: p.1, p.2)
  | _ => none

/-- Reads an exponent. -/
def exponent? : List Char → Option (List Char × List Char)
  | c :: cs =>
    if c = 'e' || c = 'E' then
      let (s, cs) := sign cs
      (digits? isDigit cs).map fun p => ('e' :: s ++ p.1, p.2)
    else none
  | [] => none

/-- Reads the part of a real number that an integer lacks: an exponent, or a fraction and
perhaps an exponent. -/
def tail? (cs : List Char) : Option (List Char × List Char) :=
  match fraction? cs with
  | some (f, rest) =>
    match exponent? rest with
    | some (e, rest) => some (f ++ e, rest)
    | none => some (f, rest)
  | none => exponent? cs

/-- Reads a real number in digits. -/
def readNumeral? (cs : List Char) : Option (Toml × List Char) := do
  let (whole, rest) ← decimal? cs
  let (part, rest) ← tail? rest
  let x ← Decimal.readReal? (whole ++ part)
  if x == 1.0 / 0.0 then none else some (real x, rest)

/-- Reads one of the words for infinity and for an undefined number. -/
def readWord? (cs : List Char) : Option (Toml × List Char) :=
  let (s, cs) := sign cs
  match cs with
  | 'i' :: 'n' :: 'f' :: rest =>
    some (real (if s = ['-'] then -1.0 / 0.0 else 1.0 / 0.0), rest)
  | 'n' :: 'a' :: 'n' :: rest => some (real (0.0 / 0.0), rest)
  | _ => none

/-- Reads a real number. -/
def readReal? (cs : List Char) : Option (Toml × List Char) :=
  (readNumeral? cs).or (readWord? cs)

/-! ### Moments -/

/-- Reads a number of two digits between two bounds. -/
def twoDigits? (least greatest : Nat) : List Char → Option (Nat × List Char)
  | a :: b :: cs =>
    let n := Decimal.value [a, b]
    if isDigit a && isDigit b && least ≤ n && n ≤ greatest then some (n, cs) else none
  | _ => none

/-- Drops a given character in front. -/
def expect? (c : Char) : List Char → Option (List Char)
  | x :: cs => if x = c then some cs else none
  | [] => none

/-- Whether a year has a leap day. -/
def isLeap (year : Nat) : Bool := (year % 4 == 0 && year % 100 != 0) || year % 400 == 0

/-- The number of days of a month. -/
def daysIn (year month : Nat) : Nat :=
  if month = 2 then if isLeap year then 29 else 28
  else if month = 4 ∨ month = 6 ∨ month = 9 ∨ month = 11 then 30
  else 31

/-- Reads a date and answers what follows. -/
def date? : List Char → Option (List Char)
  | a :: b :: c :: d :: cs => do
    if [a, b, c, d].all isDigit then
      let cs ← expect? '-' cs
      let (month, cs) ← twoDigits? 1 12 cs
      let cs ← expect? '-' cs
      let (_, cs) ← twoDigits? 1 (daysIn (Decimal.value [a, b, c, d]) month) cs
      some cs
    else none
  | _ => none

/-- Drops a fraction of a second; a point needs a digit behind it. -/
def dropSecondFraction : List Char → List Char
  | '.' :: c :: cs => if isDigit c then cs.dropWhile isDigit else '.' :: c :: cs
  | cs => cs

/-- Reads a time and answers what follows. -/
def time? (cs : List Char) : Option (List Char) := do
  let (_, cs) ← twoDigits? 0 23 cs
  let cs ← expect? ':' cs
  let (_, cs) ← twoDigits? 0 59 cs
  let cs ← expect? ':' cs
  let (_, cs) ← twoDigits? 0 60 cs
  some (dropSecondFraction cs)

/-- Reads an offset from universal time and answers what follows. -/
def offset? : List Char → Option (List Char)
  | c :: cs =>
    if c = 'Z' || c = 'z' then some cs
    else if c = '+' || c = '-' then do
      let (_, cs) ← twoDigits? 0 23 cs
      let cs ← expect? ':' cs
      let (_, cs) ← twoDigits? 0 59 cs
      some cs
    else none
  | [] => none

/-- Drops the time behind a date, with its offset, if there is one. -/
def dropTime : List Char → List Char
  | c :: cs =>
    if c = 'T' || c = 't' || c = ' ' then
      match time? cs with
      | some rest => (offset? rest).getD rest
      | none => c :: cs
    else c :: cs
  | [] => []

/-- Reads a date, a time, or both. -/
def readMoment? (cs : List Char) : Option (Toml × List Char) :=
  ((date? cs).map dropTime).or (time? cs) |>.map fun rest =>
    (moment (String.ofList (cs.take (cs.length - rest.length))), rest)

/-- Reads a moment or a number. -/
def readScalar? (cs : List Char) : Option (Toml × List Char) :=
  ((readMoment? cs).or (readReal? cs)).or (readInteger? cs)

end Toml
end Provisioning
