/-! # The fewest digits that read back

A 64-bit real stands for an interval: the numbers nearer to it than to its neighbours.
Among the decimals of that interval this module selects one with the fewest digits and, of
those, the nearest; which of two equally near ones it is, is left to the format.  The
selection works on exact naturals, one decimal grid after the other.
-/
namespace Provisioning
namespace Decimal

/-- A finite real without its sign, `coefficient * 2 ^ exponent`. -/
structure Binary where
  coefficient : Nat
  exponent : Int
  /-- The gap to the value below is half the gap to the value above. -/
  narrowBelow : Bool

/-- The parts of a finite real, read off its bits. -/
def Binary.ofBits (bits : UInt64) : Binary :=
  let power := ((bits >>> 52) &&& 0x7FF).toNat
  let fraction := (bits &&& 0xFFFFFFFFFFFFF).toNat
  if power == 0 then ⟨fraction, -1074, false⟩
  else ⟨0x10000000000000 + fraction, (power : Int) - 1075, fraction == 0 && power > 1⟩

/-- A decimal, `coefficient * 10 ^ exponent`. -/
structure Scaled where
  coefficient : Nat
  exponent : Int
  deriving Repr, DecidableEq

/-- Which of two neighbours on a grid is written when the real lies halfway between them. -/
inductive Tie where
  /-- The greater one. -/
  | up
  /-- The one with an even last digit. -/
  | even
  deriving Repr, DecidableEq

/-- Whether the lower neighbour is written, given its digits. -/
def Tie.keepsLower (t : Tie) (lower : Nat) : Bool :=
  match t with
  | up => false
  | even => lower % 2 == 0

/-- Compares `a * 10 ^ i` with `n * 2 ^ j`. -/
def compareScaled (a : Nat) (i : Int) (n : Nat) (j : Int) : Ordering :=
  compare (a * Nat.pow 10 i.toNat * Nat.pow 2 (-j).toNat)
    (n * Nat.pow 2 j.toNat * Nat.pow 10 (-i).toNat)

/-- Whether the decimal lies in the interval of the real.  The ends belong to it when the
coefficient is even. -/
def Binary.readsBack (x : Binary) (d : Scaled) : Bool :=
  let low := if x.narrowBelow then 4 * x.coefficient - 1 else 4 * x.coefficient - 2
  let high := 4 * x.coefficient + 2
  let closed := x.coefficient % 2 == 0
  let toLow := compareScaled d.coefficient d.exponent low (x.exponent - 2)
  let toHigh := compareScaled d.coefficient d.exponent high (x.exponent - 2)
  (toLow == .gt || (closed && toLow == .eq)) && (toHigh == .lt || (closed && toHigh == .eq))

/-- The greatest multiple of `10 ^ e` that is not above the real, counted in such units. -/
def Binary.floorOn (x : Binary) (e : Int) : Nat :=
  (x.coefficient * Nat.pow 2 x.exponent.toNat * Nat.pow 10 (-e).toNat) /
    (Nat.pow 2 (-x.exponent).toNat * Nat.pow 10 e.toNat)

/-- The number of digits in front of the point: the least `k` with the real below
`10 ^ k`.  The binary logarithm gives it up to a few steps. -/
def Binary.magnitude (x : Binary) : Int :=
  let start := ((x.coefficient.log2 : Int) + x.exponent) * 30103 / 100000 - 1
  let below (step : Nat) : Bool :=
    compareScaled 1 (start + step) x.coefficient x.exponent == .gt
  start + ((List.range 5).find? below).getD 5

/-- Of the two neighbours of the real on the grid of `10 ^ e`, the one to write, if either
reads back. -/
def Binary.onGrid? (x : Binary) (t : Tie) (e : Int) : Option Scaled :=
  let down : Scaled := ⟨x.floorOn e, e⟩
  let up : Scaled := ⟨x.floorOn e + 1, e⟩
  match x.readsBack down, x.readsBack up with
  | false, false => none
  | true, false => some down
  | false, true => some up
  | true, true =>
    match compareScaled (down.coefficient + up.coefficient) e (2 * x.coefficient) x.exponent with
    | .gt => some down
    | .lt => some up
    | .eq => some (if t.keepsLower down.coefficient then down else up)

/-- All digits of the real. -/
def Binary.exact (x : Binary) : Scaled :=
  if 0 ≤ x.exponent then ⟨x.coefficient * Nat.pow 2 x.exponent.toNat, 0⟩
  else ⟨x.coefficient * Nat.pow 5 (-x.exponent).toNat, x.exponent⟩

/-- Moves up to `fuel` zeros from the end of the digits into the exponent. -/
def Scaled.dropZeros (d : Scaled) : Nat → Scaled
  | 0 => d
  | fuel + 1 =>
    if d.coefficient % 10 == 0 then
      Scaled.dropZeros ⟨d.coefficient / 10, d.exponent + 1⟩ fuel
    else d

/-- The decimal with the fewest digits that reads back as the real, which is not zero. -/
def Binary.shortest (x : Binary) (t : Tie) : Scaled :=
  let k := x.magnitude
  let found := (List.range 17).findSome? fun (n : Nat) => x.onGrid? t (k - ((n : Int) + 1))
  let d := found.getD x.exact
  d.dropZeros (d.coefficient.log2 + 1)

end Decimal
end Provisioning
