import Provisioning.Decimal.Layout
import Provisioning.Text.Quoted

/-! # Values of properties

What a property may hold: a truth value, a 64-bit integer, a 64-bit real, a text, or a list
of values.  Equality of values is that of their parts, so an undefined real differs from
itself and the two zeros are equal.
-/
namespace Provisioning

/-- The value of a property. -/
inductive Value where
  | boolean (b : Bool)
  | integer (n : Int64)
  | real (x : Float)
  | text (s : String)
  | list (items : List Value)
  deriving Inhabited

namespace Value

/-- The text inside a text value. -/
def text? : Value → Option String
  | text s => some s
  | _ => none

/-- The number inside an integer value. -/
def integer? : Value → Option Int64
  | integer n => some n
  | _ => none

/-- The truth value inside a boolean value. -/
def boolean? : Value → Option Bool
  | boolean b => some b
  | _ => none

mutual
/-- How a value is shown: texts as they are, reals positionally, lists in brackets. -/
def shown : Value → String
  | boolean b => if b then "true" else "false"
  | integer n => toString n.toInt
  | real x => Decimal.positional x
  | text s => s
  | list items => "[" ++ Text.commaSeparated (shownAll items) ++ "]"

/-- How each value of a list is shown. -/
def shownAll : List Value → List String
  | [] => []
  | v :: rest => v.shown :: shownAll rest
end

mutual
/-- Whether two values are equal part by part, reals as numbers. -/
def same : Value → Value → Bool
  | boolean a, boolean b => a == b
  | integer a, integer b => a == b
  | real a, real b => a == b
  | text a, text b => a == b
  | list a, list b => sameAll a b
  | _, _ => false

/-- Whether two lists hold equal values at the same places. -/
def sameAll : List Value → List Value → Bool
  | [], [] => true
  | a :: rest, b :: rest' => same a b && sameAll rest rest'
  | _, _ => false
end

mutual
/-- The values that are no lists, at any depth, from left to right. -/
def leaves : Value → List Value
  | list items => leavesAll items
  | v => [v]

/-- The leaves of each value of a list. -/
def leavesAll : List Value → List Value
  | [] => []
  | v :: rest => v.leaves ++ leavesAll rest
end

/-- The texts inside a list of values; what is no text is passed over. -/
def texts (items : List Value) : List String := items.filterMap text?

end Value
end Provisioning
