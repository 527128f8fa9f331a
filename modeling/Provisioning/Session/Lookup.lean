import Provisioning.Session.Basic

/-! # Finding records and rosters

What the cache lacks is looked for along the chain of backends and cached when found.  A
session comes back in every case, because a look-up may have filled the cache before the
call that needed it failed.
-/
namespace Provisioning
namespace Session

variable (s : Session)

/-- Caches a roster. -/
def keepRoster (r : Roster) : Session := { s with cache := s.cache.putRoster r }

/-- Caches a new record and gives out its handle. -/
def keepRecord (r : Record) : Handle × Session :=
  let (h, s) := s.enroll r
  (h, { s with cache := (s.cache.adopt r.pid h).2 })

/-- The roster of a factory: cached, stored, or new. -/
def factory (factoryPid : String) : Except StorageError Roster × Session :=
  match s.cache.roster? factoryPid with
  | some r => (.ok r, s)
  | none =>
    match s.storage.firstHaving (Roster.idOf factoryPid) with
    | some home =>
      match Roster.load factoryPid home s.storage with
      | .ok r => (.ok r, s.keepRoster r)
      | .error e => (.error e, s)
    | none =>
      match s.storage.primary with
      | .ok home => (.ok { factoryPid, home }, s.keepRoster { factoryPid, home })
      | .error e => (.error e, s)

/-- The record that a stored dictionary stands for, with its remembered binding. -/
def revive (pid home : String) (stored : Properties) : Except StorageError Record :=
  (Record.ofDictionary pid home stored).map fun r => r.restore (s.bindings.get? pid)

/-- The record of a pid: cached or stored.  A dictionary without a pid of its own is no
configuration. -/
def configuration (pid : String) : Except StorageError (Option Handle) × Session :=
  match s.cache.record? pid with
  | some h => (.ok (some h), s)
  | none =>
    match s.storage.firstHaving pid with
    | none => (.ok none, s)
    | some home =>
      match s.storage.load home pid with
      | .error e => (.error e, s)
      | .ok stored =>
        if !stored.contains Properties.pidKey then (.ok none, s)
        else
          match s.revive pid home stored with
          | .error e => (.error e, s)
          | .ok r =>
            let (h, s) := s.keepRecord r
            (.ok (some h), s)

end Session
end Provisioning
