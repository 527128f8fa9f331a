/-! # JSON documents

The tree of a JSON text.  Members of an object stand in the order of the text, repeated
names included.  A number is an integer when it is written without fraction and exponent
and fits sixty-four bits, and a real otherwise.
-/
namespace Provisioning

/-- The tree of a JSON text. -/
inductive Json where
  | null
  | boolean (b : Bool)
  | integer (n : Int)
  | real (x : Float)
  | text (s : String)
  | array (items : List Json)
  | object (members : List (String × Json))
  deriving Inhabited

end Provisioning
