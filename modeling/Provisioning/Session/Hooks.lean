import Provisioning.Session.Lookup

/-! # Services coming and going

What the manager is told of the world: a consumer or a listener was registered or withdrawn,
a provider was uninstalled.  A new consumer is attached to each of its identities with what
is known at that moment.
-/
namespace Provisioning
namespace Session

variable (s : Session)

/-- Queues the first delivery of a pid to a consumer.  A record that cannot be loaded counts
as absent. -/
def attachSingle (c : Consumer) (pid : String) : Session :=
  let (found, s) := s.configuration pid
  let snapshot := match found with
    | .ok (some h) => some (Snapshot.of h (s.record h))
    | _ => none
  s.schedule (.attach c pid snapshot)

/-- What is found out about the members of a factory: the snapshots of those that have
properties, and the roster without those that are no members. -/
structure MusterRoll where
  snapshots : List Snapshot := []
  roster : Roster

/-- Looks up one member.  A pid without a configuration of the factory is struck off the
roster; one that cannot be loaded stays. -/
def muster (factoryPid : String) (roll : MusterRoll) (pid : String) : MusterRoll × Session :=
  match s.configuration pid with
  | (.error _, s) => (roll, s)
  | (.ok (some h), s) =>
    let r := s.record h
    if r.factoryPid = some factoryPid then
      if r.isNew then (roll, s)
      else ({ roll with snapshots := roll.snapshots ++ [Snapshot.of h r] }, s)
    else ({ roll with roster := roll.roster.remove pid }, s)
  | (.ok none, s) => ({ roll with roster := roll.roster.remove pid }, s)

/-- Looks up members one after the other. -/
def musterAll (factoryPid : String) : List String → MusterRoll → Session → MusterRoll × Session
  | [], roll, s => (roll, s)
  | pid :: rest, roll, s =>
    let (roll, s) := s.muster factoryPid roll pid
    musterAll factoryPid rest roll s

/-- Keeps a roster that lost members and stores it; a failure is passed over. -/
def prune (before after : Roster) : Session :=
  if after.members.length < before.members.length then
    let s := s.keepRoster after
    match after.store s.storage with
    | .ok storage => { s with storage }
    | .error _ => s
  else s

/-- Queues the first delivery of all members of a factory to a consumer, unless the roster
cannot be loaded. -/
def attachMembers (c : Consumer) (factoryPid : String) : Session :=
  match s.factory factoryPid with
  | (.error _, s) => s
  | (.ok roster, s) =>
    let (roll, s) := musterAll factoryPid roster.members { roster } s
    (s.prune roster roll.roster).schedule (.attachFactory c factoryPid roll.snapshots)

/-- Attaches a consumer to one of its identities. -/
def attachTo (c : Consumer) (identity : String) : Session :=
  match c.kind with
  | .single => s.attachSingle c identity
  | .factory => s.attachMembers c identity

/-- A consumer was registered. -/
def consumerRegistered (c : Consumer) : Session :=
  if s.isRunning then c.service.pids.foldl (fun s pid => s.attachTo c pid) s else s

/-- A consumer went away: the cached records forget what it took. -/
def consumerWithdrawn (service : Nat) : Session :=
  (s.cache.records.values).foldl (fun s h => s.change h fun r => r.forget service) s

/-- A listener was registered: it is told of changes from now on. -/
def listenerRegistered (l : Service) : Session :=
  if s.listeners.any fun m => m.id == l.id then s
  else { s with listeners := s.listeners ++ [l] }

/-- A listener went away: it is told of no further changes. -/
def listenerWithdrawn (service : Nat) : Session :=
  { s with listeners := s.listeners.filter fun m => m.id != service }

/-- Releases a record that is dynamically bound to a location. -/
def releaseFrom (location : String) (h : Handle) : Session :=
  if (s.record h).isBoundTo location then
    ((s.change h fun r => r.release location).announce .relocated h).schedule
      (.relocate h (some location))
  else s

/-- The provider of a location was uninstalled: every dynamic binding to the location is
released. -/
def locationUninstalled (location : String) : Session :=
  let s := (s.bindings.boundTo location).foldl (fun s pid => s.assignBinding pid none) s
  (s.cache.records.values).foldl (fun s h => s.releaseFrom location h) s

/-- Queues a task as it is; answers whether it was accepted. -/
def submit (t : Task) : Bool × Session := (s.isRunning, s.schedule t)

end Session
end Provisioning
