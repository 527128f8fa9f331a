import Provisioning.Decimal.Integer

/-! # Reading real numbers

A decimal numeral with an optional point and an optional exponent, or one of the words for
infinity and for an undefined number, read as the nearest 64-bit real.
-/
namespace Provisioning
namespace Decimal

/-- The real nearest to `coefficient * 10 ^ exponent`.  Exponents far outside the range of
the format are answered without forming the power; `width` is the number of digits that
`coefficient` was written with. -/
def nearest (coefficient width : Nat) (exponent : Int) : Float :=
  if coefficient = 0 then 0.0
  else if exponent > 310 then 1.0 / 0.0
  else if exponent + width < -330 then 0.0
  else Float.ofScientific coefficient (exponent < 0) exponent.natAbs

/-- The exponent that follows the digits: nothing, or a mark, an optional sign and digits. -/
def readExponent? : List Char → Option Int
  | [] => some 0
  | c :: cs => if c = 'e' || c = 'E' then readInt? cs else none

/-- Digits, an optional point with more digits, an optional exponent.  At least one digit
must stand beside the point. -/
def readNumeral? (cs : List Char) : Option Float :=
  let whole := cs.takeWhile isDigit
  let afterWhole := cs.dropWhile isDigit
  let (fraction, afterDigits) :=
    match afterWhole with
    | '.' :: rest => (rest.takeWhile isDigit, rest.dropWhile isDigit)
    | rest => ([], rest)
  if whole.isEmpty && fraction.isEmpty then none
  else
    (readExponent? afterDigits).map fun exponent =>
      let digits := whole ++ fraction
      nearest (value digits) digits.length (exponent - fraction.length)

/-- The words for the values that are no numbers, in any ASCII case. -/
def readWord? (cs : List Char) : Option Float :=
  let word := cs.map Char.toLower
  if word = ['n', 'a', 'n'] then some (0.0 / 0.0)
  else if word = ['i', 'n', 'f'] ∨ word = ['i', 'n', 'f', 'i', 'n', 'i', 't', 'y'] then
    some (1.0 / 0.0)
  else none

/-- A real without its sign. -/
def readMagnitude? (cs : List Char) : Option Float := (readWord? cs).or (readNumeral? cs)

/-- A real number with an optional sign. -/
def readReal? : List Char → Option Float
  | '-' :: cs => (readMagnitude? cs).map fun x => -x
  | '+' :: cs => readMagnitude? cs
  | cs => readMagnitude? cs

end Decimal
end Provisioning
