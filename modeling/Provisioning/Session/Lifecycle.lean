import Provisioning.Session.Delivery
import Provisioning.WorkQueue

/-! # Starting and stopping

A manager starts on a world: it loads the dynamic bindings from the primary backend and takes
up the registered listeners.  It stops by running all waiting work, and then accepts no more.
-/
namespace Provisioning
namespace Session

/-- The backend that a manager makes for itself when there is none. -/
def ownStorage : Storage := (Storage.add {} 0 "").withBackend "" {}

/-- Starts a manager with given settings. -/
def start (w : World) (settings : Settings) : Except AdminError Session := do
  settings.validate
  let owns := w.storage.chain.isEmpty
  let storage := if owns then ownStorage else w.storage
  let home ← storage.primary.mapError AdminError.storage
  let (bindings, storage) :=
    Bindings.load settings.bindingsId home w.directory.installedLocations storage
  .ok {
    toWorld := { w with storage }
    settings
    ownsStorage := owns
    bindings
    listeners := w.directory.currentListeners }

variable (s : Session)

/-- Stops the manager: what waits is run, no more is accepted, and the cache is emptied.  A
manager that was stopped stays as it is. -/
def shutdown : Session :=
  if !s.updates.accepting && !s.notices.accepting then s
  else
    let s := { s with updates := s.updates.close }.drainUpdates
    let s := { s with notices := s.notices.close }.drainNotices
    { s with cache := {} }

/-- The world without the manager, which is stopped; a backend of its own is lost. -/
def leave : World :=
  let s := s.shutdown
  if s.ownsStorage then { s.toWorld with storage := {} } else s.toWorld

/-- A line of work as it appears in a summary. -/
def lineSummary {α : Type} (name : String) (l : WorkLine α) : String :=
  WorkQueue.describe name l.waiting.length l.accepting

/-- The manager in one line. -/
def summary : String :=
  Text.openSummary "ConfigurationManager"
    [("config", s.settings.summary),
      ("update_queue", lineSummary s.settings.updateWorker s.updates),
      ("event_queue", lineSummary s.settings.noticeWorker s.notices)]

/-- What a manager would be started with, in one line. -/
def plan (w : World) (settings : Settings) : String :=
  Text.openSummary "ConfigurationManagerBuilder"
    [("persistence", w.storage.chain.summary),
      ("access_control", Text.shownBool w.access.isSome), ("config", settings.summary)]

end Session
end Provisioning
