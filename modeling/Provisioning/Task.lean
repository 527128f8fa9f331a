import Provisioning.Directory
import Provisioning.Record

/-! # Work on configurations

A task is what the update worker has to do: it refers to a record by its handle, so that the
record is seen as it stands when the task runs, and carries what had to be captured when the
task was queued.
-/
namespace Provisioning

/-- Refers to a record among those of a session. -/
abbrev Handle := Nat

/-- What a newly attached consumer is to be told of a record. -/
structure Snapshot where
  record : Handle
  /-- The properties at the time of attaching, absent if there were none. -/
  properties : Option Properties
  /-- The generation of those properties. -/
  generation : Nat

/-- The snapshot of a record as it stands. -/
def Snapshot.of (handle : Handle) (r : Record) : Snapshot := ⟨handle, r.properties, r.counter⟩

/-- A piece of work for the update worker. -/
inductive Task where
  /-- Hand the properties of one generation to every consumer that may see them. -/
  | deliver (record : Handle) (generation : Nat) (properties : Properties)
  /-- Tell every consumer that could see the record under its last owner that it is gone. -/
  | retract (record : Handle) (owner : Option String)
  /-- Serve and revoke after the owner changed from a former one. -/
  | relocate (record : Handle) (former : Option String)
  /-- The first delivery to a consumer of one pid. -/
  | attach (consumer : Consumer) (pid : String) (snapshot : Option Snapshot)
  /-- The first delivery to a consumer of a factory. -/
  | attachFactory (consumer : Consumer) (factoryPid : String) (members : List Snapshot)

namespace Task

/-- How an owner is shown. -/
def shownOwner (owner : Option String) : String := owner.getD "<unbound>"

/-- A task in one line, given the records as they stand. -/
def shown (recordOf : Handle → Record) : Task → String
  | deliver h generation _ =>
    "Update: pid=" ++ (recordOf h).pid ++ " generation=" ++ toString generation
  | retract h _ => "Delete: pid=" ++ (recordOf h).pid
  | relocate h former =>
    "Location Changed (pid=" ++ (recordOf h).pid ++ "): " ++ shownOwner former ++ " ==> " ++
      shownOwner (recordOf h).owner
  | attach c pid _ => "Consumer Attached: pid=" ++ pid ++ " service=" ++ c.service.shown
  | attachFactory c factoryPid members =>
    "Factory Attached: factoryPid=" ++ factoryPid ++ " members=" ++ toString members.length ++
      " service=" ++ c.service.shown

end Task
end Provisioning
