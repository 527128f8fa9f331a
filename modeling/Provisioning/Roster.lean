import Provisioning.Storage

/-! # Rosters of factories

The members of one factory, in the order of their pids.  A roster is stored under an id of
its own, as a list of pids.
-/
namespace Provisioning

/-- The member pids of a factory. -/
structure Roster where
  factoryPid : String
  /-- The name of the backend that stores the roster. -/
  home : String
  members : List String := []
  deriving DecidableEq, Repr

namespace Roster

/-- The id under which the roster of a factory is stored. -/
def idOf (factoryPid : String) : String := factoryPid ++ ".factory"

/-- The key of the list of members. -/
def listKey : String := "factory.pidList"

variable (r : Roster)

/-- Whether a pid is a member. -/
def contains (pid : String) : Bool := r.members.contains pid

/-- Adds a member. -/
def add (pid : String) : Roster :=
  if r.contains pid then r
  else { r with members := Ranked.insertBefore (fun m => decide (pid < m)) pid r.members }

/-- Removes a member. -/
def remove (pid : String) : Roster :=
  { r with members := r.members.filter fun m => m != pid }

/-- The dictionary stored for the roster. -/
def dictionary : Properties := Table.empty.put listKey (.list (r.members.map .text))

/-- The pids that a stored dictionary lists: the texts of a list, or one text. -/
def listed (stored : Properties) : List String :=
  match stored.get? listKey with
  | some (.list items) => Value.texts items
  | some (.text pid) => [pid]
  | _ => []

/-- A roster with the given members. -/
def ofList (factoryPid home : String) (members : List String) : Roster :=
  members.foldl Roster.add { factoryPid, home }

/-- Reads a roster from a backend. -/
def load (factoryPid home : String) (s : Storage) : Except StorageError Roster :=
  (s.load home (idOf factoryPid)).map fun stored => ofList factoryPid home (listed stored)

/-- Stores a roster in its backend. -/
def store (s : Storage) : Except StorageError Storage :=
  s.store r.home (idOf r.factoryPid) r.dictionary

/-- The roster in one line. -/
def summary : String :=
  Text.openSummary "Factory"
    [("factory_pid", Text.quoted r.factoryPid),
      ("members", Text.braced (r.members.map Text.quoted))]

end Roster
end Provisioning
