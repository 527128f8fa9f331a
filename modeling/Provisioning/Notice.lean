/-! # Notices to listeners

Every change of a configuration gives one notice: what happened, and to which pid of which
factory.
-/
namespace Provisioning

/-- What happened to a configuration. -/
inductive Change where
  | updated
  | deleted
  /-- The location that owns the configuration is another one, or none. -/
  | relocated
  deriving DecidableEq, Repr

/-- The word for a change. -/
def Change.word : Change → String
  | updated => "updated"
  | deleted => "deleted"
  | relocated => "location-changed"

/-- A change of one configuration. -/
structure Notice where
  change : Change
  pid : String
  factoryPid : Option String
  deriving DecidableEq, Repr

namespace Notice

/-- A notice in one line. -/
def shown (n : Notice) : String :=
  match n.factoryPid with
  | some f => n.change.word ++ " " ++ n.pid ++ " (factory " ++ f ++ ")"
  | none => n.change.word ++ " " ++ n.pid

/-- The line about a notice that is on its way to a number of listeners. -/
def announcement (n : Notice) (listeners : Nat) : String :=
  "Fire Event: " ++ n.shown ++ " to " ++ toString listeners ++ " listeners"

end Notice
end Provisioning
