import Provisioning.Decimal.Integer
import Provisioning.Decimal.Real
import Provisioning.Filter.Basic
import Provisioning.Properties
import Provisioning.Text.Blank

/-! # Evaluating filters

A filter is evaluated against a source of named values.  The text of an item is read as the
type of the value it is compared with; an absent attribute and a text that cannot be read so
match nothing.  A list matches when one of its values does.
-/
namespace Provisioning

/-- Whether a comparison holds of a value and a text that are ordered so. -/
def Comparison.admits (c : Comparison) (o : Ordering) : Bool :=
  match c with
  | .equal | .approx => o == .eq
  | .atLeast => o != .lt
  | .atMost => o != .gt

namespace Filter

/-- A text in lower case and without white space. -/
def squeezed (s : String) : List Char :=
  (s.toList.filter fun c => !Text.isBlank c).flatMap Text.lowerChar

/-- Compares a text value: exactly, loosely, or in the order of code points. -/
def compareText (actual : String) (c : Comparison) (expected : String) : Bool :=
  match c with
  | .equal => actual == expected
  | .approx => squeezed actual == squeezed expected
  | .atLeast => !decide (actual < expected)
  | .atMost => !decide (expected < actual)

/-- Compares an integer value with the integer that the text denotes. -/
def compareInteger (actual : Int64) (c : Comparison) (expected : String) : Bool :=
  match Decimal.readInt64? (Text.trimmed expected.toList) with
  | some n => c.admits (compare actual.toInt n.toInt)
  | none => false

/-- The order of two reals; an undefined number has none. -/
def realOrder? (x y : Float) : Option Ordering :=
  if x < y then some .lt else if x == y then some .eq else if y < x then some .gt else none

/-- Compares a real value with the real that the text denotes. -/
def compareReal (actual : Float) (c : Comparison) (expected : String) : Bool :=
  match Decimal.readReal? (Text.trimmed expected.toList) with
  | some x => (realOrder? actual x).any c.admits
  | none => false

/-- Compares a truth value with its word, in any ASCII case; truth values have no order. -/
def compareBoolean (actual : Bool) (c : Comparison) (expected : String) : Bool :=
  match c with
  | .equal | .approx =>
    (Text.trimmed expected.toList).map Char.toLower ==
      (if actual then "true" else "false").toList
  | .atLeast | .atMost => false

mutual
/-- Whether a value stands in the relation to the text; of a list, whether one value does. -/
def compareValue (c : Comparison) (expected : String) : Value → Bool
  | .text s => compareText s c expected
  | .integer n => compareInteger n c expected
  | .real x => compareReal x c expected
  | .boolean b => compareBoolean b c expected
  | .list items => compareAny c expected items

/-- Whether one of the values stands in the relation to the text. -/
def compareAny (c : Comparison) (expected : String) : List Value → Bool
  | [] => false
  | v :: rest => compareValue c expected v || compareAny c expected rest
end

/-- The text behind the given start, if the text starts so. -/
def after? : List Char → List Char → Option (List Char)
  | [], cs => some cs
  | _ :: _, [] => none
  | p :: ps, c :: cs => if p = c then after? ps cs else none

/-- The text behind the first occurrence of the part. -/
def afterFirst? (part : List Char) : List Char → Option (List Char)
  | [] => after? part []
  | c :: cs => (after? part (c :: cs)).or (afterFirst? part cs)

/-- The text behind the parts, each taken where it occurs first after the one before. -/
def afterParts? : List String → List Char → Option (List Char)
  | [], cs => some cs
  | part :: parts, cs => (afterFirst? part.toList cs).bind (afterParts? parts)

/-- Whether a text contains the parts of a pattern in order and without overlap. -/
def matchesText (p : Pattern) (s : String) : Bool :=
  let behind := (after? ((p.initial.getD "").toList) s.toList).bind (afterParts? p.middle)
  match behind with
  | some rest => ((p.final.getD "").toList).isSuffixOf rest
  | none => false

mutual
/-- Whether a value matches a pattern; of a list, whether one value does. -/
def matchesValue (p : Pattern) : Value → Bool
  | .text s => matchesText p s
  | .list items => matchesAny p items
  | _ => false

/-- Whether one of the values matches a pattern. -/
def matchesAny (p : Pattern) : List Value → Bool
  | [] => false
  | v :: rest => matchesValue p v || matchesAny p rest
end

mutual
/-- Whether a source of named values passes a filter. -/
def accepts (source : String → Option Value) : Filter → Bool
  | all parts => acceptsAll source parts
  | any parts => acceptsAny source parts
  | negate part => !accepts source part
  | present name => (source name).isSome
  | item name c expected => (source name).any (compareValue c expected)
  | substring name p => (source name).any (matchesValue p)

/-- Whether a source passes all of the filters. -/
def acceptsAll (source : String → Option Value) : List Filter → Bool
  | [] => true
  | p :: rest => accepts source p && acceptsAll source rest

/-- Whether a source passes one of the filters. -/
def acceptsAny (source : String → Option Value) : List Filter → Bool
  | [] => false
  | p :: rest => accepts source p || acceptsAny source rest
end

/-- Whether properties pass a filter. -/
def acceptsProperties (f : Filter) (p : Properties) : Bool := f.accepts p.get?

end Filter
end Provisioning
