/-! # Filters

A filter is a test on named attributes, built from items by conjunction, disjunction and
negation.  An item asks whether an attribute is present, compares it with a text, or
matches it against a pattern of parts.
-/
namespace Provisioning

/-- How an item compares an attribute with a text. -/
inductive Comparison where
  | equal
  | approx
  | atLeast
  | atMost
  deriving DecidableEq, Repr

/-- The parts that a text must contain in order: at its start, in between, at its end. -/
structure Pattern where
  initial : Option String
  middle : List String
  final : Option String
  deriving DecidableEq, Repr

/-- A test on named attributes. -/
inductive Filter where
  | all (parts : List Filter)
  | any (parts : List Filter)
  | negate (part : Filter)
  | present (name : String)
  | item (name : String) (comparison : Comparison) (value : String)
  | substring (name : String) (pattern : Pattern)
  deriving Inhabited

namespace Filter

mutual
/-- Whether two filters are the same. -/
def same : Filter → Filter → Bool
  | all ps, all qs => sameAll ps qs
  | any ps, any qs => sameAll ps qs
  | negate p, negate q => same p q
  | present a, present b => a == b
  | item a c v, item b d w => a == b && c == d && v == w
  | substring a p, substring b q => a == b && p == q
  | _, _ => false

/-- Whether two lists hold the same filters. -/
def sameAll : List Filter → List Filter → Bool
  | [], [] => true
  | p :: ps, q :: qs => same p q && sameAll ps qs
  | _, _ => false
end

mutual
theorem same_iff : ∀ p q : Filter, same p q = true ↔ p = q
  | all ps, q => by cases q <;> simp [same, sameAll_iff ps]
  | any ps, q => by cases q <;> simp [same, sameAll_iff ps]
  | negate p, q => by cases q <;> simp [same, same_iff p]
  | present a, q => by cases q <;> simp [same]
  | item a c v, q => by cases q <;> simp [same, and_assoc]
  | substring a p, q => by cases q <;> simp [same]

theorem sameAll_iff : ∀ ps qs : List Filter, sameAll ps qs = true ↔ ps = qs
  | [], qs => by cases qs <;> simp [sameAll]
  | p :: ps, qs => by cases qs <;> simp [sameAll, same_iff p, sameAll_iff ps]
end

instance : DecidableEq Filter := fun p q => decidable_of_iff _ (same_iff p q)

end Filter
end Provisioning
