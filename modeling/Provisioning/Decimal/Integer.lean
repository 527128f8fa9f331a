/-! # Reading integers

An optional sign and one or more ASCII digits, read as a number within the signed 64-bit
range.  The reader is exact at both ends of the range, whatever the number of digits.
-/
namespace Provisioning
namespace Decimal

/-- One of the ten ASCII digits. -/
def isDigit (c : Char) : Bool := '0' ≤ c && c ≤ '9'

/-- The value of an ASCII digit. -/
def digitValue (c : Char) : Nat := c.toNat - 48

/-- The number that a run of digits denotes. -/
def value (cs : List Char) : Nat := cs.foldl (fun n c => 10 * n + digitValue c) 0

/-- A natural number written in ASCII digits, leading zeros allowed. -/
def readNat? (cs : List Char) : Option Nat :=
  if !cs.isEmpty && cs.all isDigit then some (value cs) else none

/-- An integer of any size: an optional sign in front of a natural number. -/
def readInt? : List Char → Option Int
  | '-' :: cs => (readNat? cs).map fun n => -(n : Int)
  | '+' :: cs => (readNat? cs).map fun n => (n : Int)
  | cs => (readNat? cs).map fun n => (n : Int)

/-- The least 64-bit integer. -/
def int64Min : Int := -9223372036854775808

/-- The greatest 64-bit integer. -/
def int64Max : Int := 9223372036854775807

/-- An integer within the signed 64-bit range. -/
def readInt64? (cs : List Char) : Option Int64 :=
  match readInt? cs with
  | some n => if int64Min ≤ n ∧ n ≤ int64Max then some (Int64.ofInt n) else none
  | none => none

@[simp] theorem value_nil : value [] = 0 := rfl

/-- A further digit multiplies what was read by ten. -/
@[simp] theorem value_append_singleton (cs : List Char) (c : Char) :
    value (cs ++ [c]) = 10 * value cs + digitValue c := by
  simp only [value, List.foldl_append, List.foldl_cons, List.foldl_nil]

end Decimal
end Provisioning
