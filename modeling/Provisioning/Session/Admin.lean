import Provisioning.Filter.Match
import Provisioning.Filter.Parser
import Provisioning.Session.Lookup
import Provisioning.Text.Blank

/-! # Administrative calls

Every change is stored first, then made in the record, then turned into work for the
consumers and a notice for the listeners.  A call that fails to store leaves the record as
it is.  A session comes back from every call, since even one that fails may have filled the
cache.
-/
namespace Provisioning
namespace Session

variable (s : Session)

/-- Refuses a pid that is blank. -/
def checkPid (pid : String) : Except AdminError Unit :=
  if Text.isAllBlank pid then .error (.invalidPid pid) else .ok ()

/-- The record of a pid, for calls that need one. -/
def require (pid : String) : Except AdminError Handle × Session :=
  match s.configuration pid with
  | (.error e, s) => (.error (.storage e), s)
  | (.ok none, s) => (.error (.notFound pid), s)
  | (.ok (some h), s) =>
    if (s.record h).deleted then (.error (.deleted pid), s) else (.ok h, s)

/-- The record of a pid; when there is none, a new one is stored that belongs to a location,
or without one to its remembered binding. -/
def getOrCreate (pid : String) (location : Option String) : Except AdminError Handle × Session :=
  if !s.isRunning then (.error .shutDown, s)
  else
    match checkPid pid with
    | .error e => (.error e, s)
    | .ok () =>
      match s.configuration pid with
      | (.error e, s) => (.error (.storage e), s)
      | (.ok (some h), s) => (.ok h, s)
      | (.ok none, s) =>
        match s.storage.primary with
        | .error e => (.error (.storage e), s)
        | .ok home =>
          let r : Record := { pid, factoryPid := none, home, staticLocation := location }
          let r := r.restore (s.bindings.get? pid)
          match s.storage.store home pid r.persisted with
          | .error e => (.error (.storage e), s)
          | .ok storage =>
            let (h, s) := { s with storage }.keepRecord r
            (.ok h, s)

/-- The record of a pid, if there is one. -/
def getExisting (pid : String) : Except AdminError (Option Handle) × Session :=
  if !s.isRunning then (.error .shutDown, s)
  else
    match s.configuration pid with
    | (.error e, s) => (.error (.storage e), s)
    | (.ok h, s) => (.ok h, s)

/-- Makes a new member of a factory under the first of the given names that no configuration
has. -/
def mintMember (s : Session) (factoryPid : String) (location : Option String) :
    List String → Except AdminError (Option Handle) × Session
  | [] => (.ok none, s)
  | pid :: rest =>
    match s.configuration pid with
    | (.error e, s) => (.error (.storage e), s)
    | (.ok (some _), s) => mintMember s factoryPid location rest
    | (.ok none, s) =>
      match s.storage.primary with
      | .error e => (.error (.storage e), s)
      | .ok home =>
        let (h, s) := s.keepRecord
          { pid, factoryPid := some factoryPid, home, staticLocation := location }
        (.ok (some h), s)

/-- A new member of a factory, under the first free one of the given names.  It is neither
stored nor listed as a member before its first update.  Without a free name there is no new
member. -/
def createMember (factoryPid : String) (location : Option String) (names : List String) :
    Except AdminError (Option Handle) × Session :=
  if !s.isRunning then (.error .shutDown, s)
  else
    match checkPid factoryPid with
    | .error e => (.error e, s)
    | .ok () =>
      match s.factory factoryPid with
      | (.error e, s) => (.error (.storage e), s)
      | (.ok _, s) => s.mintMember factoryPid location names

/-- The members of a factory, in the order of their pids. -/
def members (factoryPid : String) : Except AdminError (List String) × Session :=
  if !s.isRunning then (.error .shutDown, s)
  else
    match s.factory factoryPid with
    | (.error e, s) => (.error (.storage e), s)
    | (.ok roster, s) => (.ok roster.members, s)

/-! ### Listing -/

/-- What a listing has found: the pids it is done with, and the records to be listed. -/
structure Findings where
  seen : List String := []
  found : List Record := []

/-- The record that a listed dictionary stands for: the cached one, or one made for the
listing. -/
def listedRecord (pid home : String) (stored : Properties) : Except AdminError Record :=
  match s.cache.record? pid with
  | some h => .ok (s.record h)
  | none => (s.revive pid home stored).mapError .storage

/-- Takes a dictionary into a listing, if it is a configuration that was not seen in a
backend of higher rank and passes the filter.  A record that was never updated is not
listed. -/
def survey (filter : Option Filter) (home : String) (f : Findings) (stored : Properties) :
    Except AdminError Findings :=
  match Properties.text? stored Properties.pidKey with
  | none => .ok f
  | some pid =>
    if f.seen.contains pid || !(filter.map fun g => g.acceptsProperties stored).getD true then
      .ok f
    else
      (s.listedRecord pid home stored).map fun r =>
        { seen := pid :: f.seen
          found := if r.isNew || r.deleted then f.found else f.found ++ [r] }

/-- Takes the dictionaries of a backend into a listing. -/
def surveyBackend (filter : Option Filter) (f : Findings) (l : Link) :
    Except AdminError Findings :=
  match (s.storage.backend l.backend).listAll with
  | .error e => .error (.storage e)
  | .ok dictionaries => dictionaries.foldlM (s.survey filter l.backend) f

/-- The records that were updated and whose stored dictionaries pass a filter, in the order
of their pids. -/
def list (filter : Option String) : Except AdminError (List Record) :=
  if !s.isRunning then .error .shutDown
  else do
    let filter ← match filter with
      | none => .ok none
      | some text => ((Filter.parse text).map some).mapError AdminError.filter
    let f ← s.storage.chain.foldlM (s.surveyBackend filter) {}
    .ok (Ranked.sort (fun a b => decide (a.pid < b.pid)) f.found)

/-! ### Changing -/

/-- Lists a record as a member of its factory before its update is stored.  When the roster
cannot be stored the record is no member. -/
def join (h : Handle) : Except AdminError Unit × Session :=
  let r := s.record h
  match r.factoryPid with
  | none => (.ok (), s)
  | some f =>
    match s.factory f with
    | (.error e, s) => (.error (.storage e), s)
    | (.ok roster, s) =>
      if roster.contains r.pid then (.ok (), s)
      else
        match (roster.add r.pid).store s.storage with
        | .error e => (.error (.storage e), s)
        | .ok storage => (.ok (), { s with storage }.keepRoster (roster.add r.pid))

/-- Makes a stored update: in the record, for listeners, and for consumers. -/
def commit (h : Handle) (p : Properties) : Session :=
  let r := s.record h
  ((s.change h fun r => r.commit p).announce .updated h).schedule
    (.deliver h (r.counter + 1) (r.stamp p))

/-- Replaces the properties of a record and has them delivered; answers the new
generation. -/
def update (pid : String) (p : Properties) : Except AdminError Nat × Session :=
  if !s.isRunning then (.error .shutDown, s)
  else
    match s.require pid with
    | (.error e, s) => (.error e, s)
    | (.ok h, s) =>
      match s.join h with
      | (.error e, s) => (.error e, s)
      | (.ok (), s) =>
        let r := s.record h
        match s.storage.store r.home pid (r.persistedWith p) with
        | .error e => (.error (.storage e), s)
        | .ok storage => (.ok (r.counter + 1), { s with storage }.commit h p)

/-- Makes a stored deletion: in the record, in the cache and the bindings, for listeners, and
for consumers. -/
def discard (h : Handle) (pid : String) : Session :=
  let s : Session := { s.change h fun r => { r with deleted := true } with
    cache := s.cache.drop pid }
  let s := (s.assignBinding pid none).announce .deleted h
  s.schedule (.retract h (s.record h).owner)

/-- Deletes a record and has its consumers told. -/
def delete (pid : String) : Except AdminError Unit × Session :=
  if !s.isRunning then (.error .shutDown, s)
  else
    match s.require pid with
    | (.error e, s) => (.error e, s)
    | (.ok h, s) =>
      match s.storage.delete (s.record h).home pid with
      | .error e => (.error (.storage e), s)
      | .ok storage => (.ok (), { s with storage }.discard h pid)

/-- Stores the dictionary for another static location; a member that was never stored stays
so. -/
def storeLocation (h : Handle) (pid : String) (location : Option String) :
    Except StorageError Storage :=
  let r := s.record h
  if r.factoryPid.isSome && r.isNew then .ok s.storage
  else s.storage.store r.home pid (r.persistedAt location)

/-- Makes a stored change of the static location.  Listeners hear of it when the owner is
another one; consumers are reconsidered when there was an owner before. -/
def resettle (h : Handle) (pid : String) (location : Option String) : Session :=
  let former := (s.record h).owner
  let s := (s.change h fun r => r.relocate location).assignBinding pid none
  if former = location then s
  else
    let s := s.announce .relocated h
    if former.isSome then s.schedule (.relocate h former) else s

/-- Sets or clears the static location of a record. -/
def setLocation (pid : String) (location : Option String) : Except AdminError Unit × Session :=
  if !s.isRunning then (.error .shutDown, s)
  else
    match s.require pid with
    | (.error e, s) => (.error e, s)
    | (.ok h, s) =>
      match s.storeLocation h pid location with
      | .error e => (.error (.storage e), s)
      | .ok storage => (.ok (), { s with storage }.resettle h pid location)

/-- The owner of a record. -/
def getLocation (pid : String) : Except AdminError (Option String) × Session :=
  if !s.isRunning then (.error .shutDown, s)
  else
    match s.require pid with
    | (.error e, s) => (.error e, s)
    | (.ok h, s) => (.ok (s.record h).owner, s)

end Session
end Provisioning
