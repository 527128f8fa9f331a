import Provisioning.Roster

/-! # The cache

What is known of configurations and factories, by pid.  What is there first stays: whoever
adds a second thing under a pid is given the first one instead.
-/
namespace Provisioning

/-- Configurations, in whatever form they are referred to, and rosters of factories. -/
structure Cache (α : Type) where
  records : ExactTable α := .empty
  rosters : ExactTable Roster := .empty

namespace Cache

variable {α : Type}

instance : Inhabited (Cache α) := ⟨{}⟩

variable (c : Cache α)

/-- The configuration of a pid. -/
def record? (pid : String) : Option α := c.records.get? pid

/-- Adds a configuration unless there is one; answers the one that is there now. -/
def adopt (pid : String) (record : α) : α × Cache α :=
  match c.record? pid with
  | some first => (first, c)
  | none => (record, { c with records := c.records.put pid record })

/-- Drops a configuration. -/
def drop (pid : String) : Cache α := { c with records := c.records.erase pid }

/-- The roster of a factory. -/
def roster? (factoryPid : String) : Option Roster := c.rosters.get? factoryPid

/-- Adds a roster unless there is one; answers the one that is there now. -/
def adoptRoster (roster : Roster) : Roster × Cache α :=
  match c.roster? roster.factoryPid with
  | some first => (first, c)
  | none => (roster, { c with rosters := c.rosters.put roster.factoryPid roster })

/-- Puts a changed roster in place. -/
def putRoster (roster : Roster) : Cache α :=
  { c with rosters := c.rosters.put roster.factoryPid roster }

/-- Drops a roster. -/
def dropRoster (factoryPid : String) : Cache α :=
  { c with rosters := c.rosters.erase factoryPid }

end Cache
end Provisioning
