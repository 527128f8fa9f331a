import Provisioning.Text.CaseTable
import Provisioning.Text.Ranges

/-! # Lower case

Two ways to lower a text.  `lowerChar` lowers one character on its own; `lower` lowers a
whole text, where a capital sigma that ends a word becomes the final sigma.  Keys of
properties are compared by `lower`, values of an approximate test by `lowerChar`.
-/
namespace Provisioning
namespace Text

/-- The shift of the run that holds the code point, if one does. -/
def lowerShift? (n : Nat) : Option Int :=
  (lowerRuns.find? fun r => r.first ≤ n && n ≤ r.last && (n - r.first) % r.stride == 0).map
    LowerRun.shift

/-- The lower-case form of one character, without regard to its neighbours.  Only the
dotted capital I takes two characters. -/
def lowerChar (c : Char) : List Char :=
  if c.toNat < 128 then
    [c.toLower]
  else if c = 'İ' then
    ['i', '\u0307']
  else
    match lowerShift? c.toNat with
    | some shift => [Char.ofNat (c.toNat + shift).toNat]
    | none => [c]

/-- Upper, lower and title case letters. -/
def isCased (c : Char) : Bool := inRanges casedRanges c.toNat

/-- Marks and signs that do not interrupt a word. -/
def isCaseIgnorable (c : Char) : Bool := inRanges caseIgnorableRanges c.toNat

/-- Whether the first character that does not merely continue a word is a cased letter. -/
def meetsCased (cs : List Char) : Bool :=
  match cs.dropWhile isCaseIgnorable with
  | [] => false
  | c :: _ => isCased c

/-- Lowers a text of which `before` has been read, nearest character first.  A capital
sigma is final when a cased letter stands before it and none after. -/
def lowerAfter (before : List Char) : List Char → List Char
  | [] => []
  | c :: cs =>
    (if c = 'Σ' then
      (if meetsCased before && !meetsCased cs then ['ς'] else ['σ'])
    else lowerChar c) ++ lowerAfter (c :: before) cs

/-- The lower-case form of a text. -/
def lower (s : String) : String := String.ofList (lowerAfter [] s.toList)

@[simp] theorem lowerAfter_nil (before : List Char) : lowerAfter before [] = [] := rfl

end Text
end Provisioning
