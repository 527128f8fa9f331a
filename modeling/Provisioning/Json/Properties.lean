import Provisioning.Json.Reader
import Provisioning.Json.Writer
import Provisioning.Properties

/-! # Properties as JSON

Properties are written as one object and read from one.  Null and objects are no values; of
members with one name the last counts, at the place of the first.
-/
namespace Provisioning

mutual
/-- The value that a document stands for. -/
def Value.ofJson? : Json → Option Value
  | .boolean b => some (.boolean b)
  | .integer n =>
    if Decimal.int64Min ≤ n ∧ n ≤ Decimal.int64Max then some (.integer (Int64.ofInt n))
    else some (.real (Float.ofScientific n.toNat false 0))
  | .real x => some (.real x)
  | .text s => some (.text s)
  | .array items => (Value.listOfJson? items).map .list
  | .null => none
  | .object _ => none

/-- The values of a list of documents. -/
def Value.listOfJson? : List Json → Option (List Value)
  | [] => some []
  | j :: rest => do
    let v ← Value.ofJson? j
    let vs ← Value.listOfJson? rest
    some (v :: vs)
end

mutual
/-- The document of a value. -/
def Value.toJson : Value → Json
  | .boolean b => .boolean b
  | .integer n => .integer n.toInt
  | .real x => .real x
  | .text s => .text s
  | .list items => .array (Value.listToJson items)

/-- The documents of a list of values. -/
def Value.listToJson : List Value → List Json
  | [] => []
  | v :: rest => v.toJson :: Value.listToJson rest
end

namespace Properties

/-- The members of an object as named values. -/
def membersOfJson? : List (String × Json) → Option (List (String × Value))
  | [] => some []
  | (name, j) :: rest => do
    let v ← Value.ofJson? j
    let vs ← membersOfJson? rest
    some ((name, v) :: vs)

/-- Properties from an object. -/
def ofJson? : Json → Option Properties
  | .object members => (membersOfJson? members).map fun l => ofMap (.ofList l)
  | _ => none

/-- The object of properties. -/
def toJson (p : Properties) : Json :=
  .object ((toMap p).entries.map fun e => (e.1, e.2.toJson))

/-- Reads properties from a JSON text. -/
def read? (s : String) : Option Properties := (Json.parse? s).bind ofJson?

/-- Writes properties as compact JSON. -/
def write (p : Properties) : String := (toJson p).compact

end Properties
end Provisioning
