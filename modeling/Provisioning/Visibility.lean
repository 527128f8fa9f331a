import Provisioning.Text.Summary

/-! # Who may see a configuration

A configuration without an owner is for everyone.  An owner that starts with a question mark
stands for many locations: an access check decides who belongs to it, and without one
everybody does.  Every other owner is a single location and sees the configuration alone.
-/
namespace Provisioning

/-- Decides whether a location may see what belongs to an owner of many locations. -/
abbrev AccessCheck := String → String → Bool

namespace Visibility

/-- Whether an owner stands for many locations. -/
def isShared (owner : String) : Bool := owner.toList.head? == some '?'

/-- Whether a consumer at a location may see a configuration of the given owner. -/
def permits (access : Option AccessCheck) (location : String) (owner : Option String) : Bool :=
  match owner with
  | none => true
  | some o =>
    if isShared o then
      match access with
      | some check => check location o
      | none => true
    else location == o

/-- The access check that permits exactly the listed pairs of a location and an owner. -/
def listed (pairs : List (String × String)) : AccessCheck :=
  fun location owner => pairs.contains (location, owner)

/-- The rule in one line: whether an access check takes part. -/
def summary (access : Option AccessCheck) : String :=
  Text.summary "BindingPolicy" [("access_control", Text.shownBool access.isSome)]

end Visibility
end Provisioning
