/-! # White space

The Unicode property `White_Space`, a set of 25 characters, and trimming by it.  What a
name or a number is read from has its white space removed on both sides first, and a name
made of white space alone counts as blank.
-/
namespace Provisioning
namespace Text

/-- The characters with the Unicode property `White_Space`. -/
def isBlank (c : Char) : Bool :=
  let n := c.toNat
  (0x09 ≤ n && n ≤ 0x0D) || n == 0x20 || n == 0x85 || n == 0xA0 || n == 0x1680 ||
    (0x2000 ≤ n && n ≤ 0x200A) || n == 0x2028 || n == 0x2029 || n == 0x202F || n == 0x205F ||
    n == 0x3000

/-- Drops white space in front. -/
def trimStart (cs : List Char) : List Char := cs.dropWhile isBlank

/-- Drops white space at the end. -/
def trimEnd (cs : List Char) : List Char := (cs.reverse.dropWhile isBlank).reverse

/-- Drops white space on both sides. -/
def trimmed (cs : List Char) : List Char := trimEnd (trimStart cs)

/-- Drops white space on both sides of a text. -/
def trim (s : String) : String := String.ofList (trimmed s.toList)

/-- A text of white space only, or of nothing. -/
def isAllBlank (s : String) : Bool := s.toList.all isBlank

theorem trimStart_cons_of_blank {c : Char} {cs : List Char} (h : isBlank c = true) :
    trimStart (c :: cs) = trimStart cs := by
  simp [trimStart, h]

theorem trimStart_cons_of_not_blank {c : Char} {cs : List Char} (h : isBlank c = false) :
    trimStart (c :: cs) = c :: cs := by
  simp [trimStart, h]

end Text
end Provisioning
