/-! # Why a text is no filter

The causes for which reading a filter stops.  Each but the end of the text names the place
of the fault; `Place` is the way it is given, the remaining text while reading and a
character offset in what the reader reports.
-/
namespace Provisioning
namespace Filter

/-- The cause for which reading stopped. -/
inductive ReadError (Place : Type) where
  | unexpectedEnd
  | expected (wanted found : Char) (place : Place)
  | missingAttribute (place : Place)
  | invalidOperator (place : Place)
  | emptyList (place : Place)
  | unescapedParen (place : Place)
  | trailingInput (place : Place)
  deriving DecidableEq, Repr

namespace ReadError

variable {Place Place' : Type}

/-- Gives the place of the fault in another way. -/
def map (f : Place → Place') : ReadError Place → ReadError Place'
  | unexpectedEnd => unexpectedEnd
  | expected wanted found place => expected wanted found (f place)
  | missingAttribute place => missingAttribute (f place)
  | invalidOperator place => invalidOperator (f place)
  | emptyList place => emptyList (f place)
  | unescapedParen place => unescapedParen (f place)
  | trailingInput place => trailingInput (f place)

/-- The place of the fault; a text that merely ends has none. -/
def place? : ReadError Place → Option Place
  | unexpectedEnd => none
  | expected _ _ place => some place
  | missingAttribute place => some place
  | invalidOperator place => some place
  | emptyList place => some place
  | unescapedParen place => some place
  | trailingInput place => some place

/-- What the reader reports. -/
def message : ReadError Nat → String
  | unexpectedEnd => "unexpected end of filter"
  | expected wanted found offset =>
    "expected '" ++ wanted.toString ++ "' at offset " ++ toString offset ++
      ", found '" ++ found.toString ++ "'"
  | missingAttribute offset => "missing attribute name at offset " ++ toString offset
  | invalidOperator offset => "invalid operator at offset " ++ toString offset
  | emptyList offset => "empty filter list at offset " ++ toString offset
  | unescapedParen offset => "unescaped '(' in value at offset " ++ toString offset
  | trailingInput offset => "trailing input at offset " ++ toString offset

end ReadError
end Filter
end Provisioning
