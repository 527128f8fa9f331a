import Provisioning.Decimal.Shortest

/-! # Writing real numbers

The two ways the library lays out the shortest digits of a real: positionally, for the text
of a value, and with an exponent outside a middle range, for stored text.
-/
namespace Provisioning
namespace Decimal

/-- The digits of a natural number. -/
def digits (n : Nat) : List Char := Nat.toDigits 10 n

/-- A number of zeros. -/
def zeros (n : Nat) : List Char := List.replicate n '0'

/-- Digits with the point after the first `point` of them, padded with zeros so that the
point does not stand outside.  A point behind all digits is left out. -/
def pointed (ds : List Char) (point : Int) : List Char :=
  if point ≤ 0 then ['0', '.'] ++ zeros (-point).toNat ++ ds
  else if ds.length ≤ point.toNat then ds ++ zeros (point.toNat - ds.length)
  else ds.take point.toNat ++ '.' :: ds.drop point.toNat

/-- The sign of a real, kept for a negative zero. -/
def sign (x : Float) : List Char := if x.toBits >>> 63 == 1 then ['-'] else []

/-- A real in positional notation with the fewest digits, a tie going up, without a point
where it is whole. -/
def positional (x : Float) : String :=
  if x.isNaN then "NaN"
  else if x.isInf then String.ofList (sign x ++ ['i', 'n', 'f'])
  else
    let b := Binary.ofBits x.toBits
    if b.coefficient = 0 then String.ofList (sign x ++ ['0'])
    else
      let d := b.shortest .up
      let ds := digits d.coefficient
      String.ofList (sign x ++ pointed ds (ds.length + d.exponent))

/-- Digits with a point after the first, followed by the exponent. -/
def scientific (ds : List Char) (point : Int) : List Char :=
  let mantissa :=
    match ds with
    | [] => []
    | [d] => [d]
    | d :: rest => d :: '.' :: rest
  mantissa ++ 'e' :: (toString (point - 1)).toList

/-- A finite real as stored text, with the fewest digits, a tie going to the even one:
positional while the point stands at most four zeros before and sixteen places behind the
first digit, always with a point there. -/
def stored (x : Float) : String :=
  let b := Binary.ofBits x.toBits
  if b.coefficient = 0 then String.ofList (sign x ++ ['0', '.', '0'])
  else
    let d := b.shortest .even
    let ds := digits d.coefficient
    let point : Int := ds.length + d.exponent
    let body :=
      if -5 < point ∧ point ≤ 16 then
        if ds.length ≤ point then pointed ds point ++ ['.', '0'] else pointed ds point
      else scientific ds point
    String.ofList (sign x ++ body)

end Decimal
end Provisioning
