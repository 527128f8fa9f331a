import Provisioning.Decimal.Integer
import Provisioning.Json.Basic

/-! # JSON numbers

The digits of a number are gathered into one significand as long as it fits sixty-four
bits: digits of the whole part that no longer fit raise the exponent, digits of the
fraction that no longer fit are dropped.  A real is the significand multiplied or divided by
one power of ten, so its last place can differ from that of the nearest real.
-/
namespace Provisioning
namespace Json

/-- The greatest significand. -/
def significandMax : Nat := 0xFFFFFFFFFFFFFFFF

/-- Appends digits to a significand while it stays within its limit; gives back the digits
from the first one that does not fit. -/
def gather (significand : Nat) : List Char → Nat × List Char
  | [] => (significand, [])
  | c :: cs =>
    let next := 10 * significand + Decimal.digitValue c
    if next ≤ significandMax then gather next cs else (significand, c :: cs)

/-- The greatest power of ten that is applied in one step. -/
def powerMax : Nat := 308

/-- A power of ten. -/
def tenTo (n : Nat) : Float := Float.ofScientific 1 false n

/-- Divides by a power of ten in steps.  Three steps exhaust every significand. -/
def shiftDown (x : Float) (power : Nat) : Nat → Float
  | 0 => 0.0
  | steps + 1 =>
    if power ≤ powerMax then x / tenTo power
    else if x == 0.0 then x
    else shiftDown (x / tenTo powerMax) (power - powerMax) steps

/-- The real `significand * 10 ^ exponent`, or nothing when it is beyond the range. -/
def scaled? (significand : Nat) (exponent : Int) : Option Float :=
  let x := Float.ofScientific significand false 0
  if exponent < 0 then some (shiftDown x exponent.natAbs 4)
  else if exponent ≤ powerMax then
    let y := x * tenTo exponent.toNat
    if y.isInf then none else some y
  else if significand = 0 then some x
  else none

/-- The exponent behind the digits, and the text behind it: nothing when there is no mark,
a failure when the mark has no digits. -/
def readExponent? : List Char → Option (Option Int × List Char)
  | [] => some (none, [])
  | c :: cs =>
    if c = 'e' || c = 'E' then
      let (negative, cs) :=
        match cs with
        | '-' :: cs => (true, cs)
        | '+' :: cs => (false, cs)
        | cs => (false, cs)
      match cs.takeWhile Decimal.isDigit with
      | [] => none
      | ds =>
        let n : Int := Decimal.value ds
        some (some (if negative then -n else n), cs.dropWhile Decimal.isDigit)
    else some (none, c :: cs)

/-- The fraction behind the whole digits: its digits, and the text behind them. -/
def readFraction? : List Char → Option (Option (List Char) × List Char)
  | '.' :: cs =>
    match cs.takeWhile Decimal.isDigit with
    | [] => none
    | ds => some (some ds, cs.dropWhile Decimal.isDigit)
  | cs => some (none, cs)

/-- A whole number within its range; beyond it, and for a negative zero, a real. -/
def wholeNumber (negative : Bool) (n : Nat) : Json :=
  if !negative then integer n
  else if n = 0 ∨ 0x8000000000000000 < n then real (-(Float.ofScientific n false 0))
  else integer (-n)

/-- Reads a number without its sign. -/
def readMagnitude? (negative : Bool) (cs : List Char) : Option (Json × List Char) := do
  let whole := cs.takeWhile Decimal.isDigit
  let rest := cs.dropWhile Decimal.isDigit
  if whole.isEmpty || (whole.head? == some '0' && whole.length != 1) then none
  else
    let (significand, unfit) := gather 0 whole
    let (fraction, rest) ← readFraction? rest
    let (exponent, rest) ← readExponent? rest
    match fraction, exponent, unfit with
    | none, none, [] => some (wholeNumber negative significand, rest)
    | _, _, _ =>
      let ds := fraction.getD []
      let (significand, dropped) := gather significand ds
      let kept : Int := (ds.length - dropped.length : Nat)
      let x ← scaled? significand (exponent.getD 0 + unfit.length - kept)
      some (real (if negative then -x else x), rest)

/-- Reads a number. -/
def readNumber? : List Char → Option (Json × List Char)
  | '-' :: cs => readMagnitude? true cs
  | cs => readMagnitude? false cs

end Json
end Provisioning
