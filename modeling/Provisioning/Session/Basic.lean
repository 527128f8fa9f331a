import Provisioning.Bindings
import Provisioning.Cache
import Provisioning.Plugin
import Provisioning.Settings
import Provisioning.Target
import Provisioning.Task
import Provisioning.Visibility

/-! # Sessions

The state of a running manager together with the world around it.  The world is what exists
with or without a manager: the service directory, the storage, the access check, and the
records and callbacks so far.  A session adds what a manager keeps: its cache, its table of
bindings, its listeners and plugins, and two lines of waiting work, one of tasks for
consumers and one of notices for listeners.

Records are never taken away.  They are referred to by handles, so that a task sees its
record as it stands when the task runs, even when the record has left the cache.
-/
namespace Provisioning

/-- On whose behalf a consumer was called. -/
structure Occasion where
  record : Handle
  /-- The record as it stood at the time of the call. -/
  standing : Record
  /-- The properties as they were given to the plugins, with the generation that the
  delivery counts for; absent when none were delivered. -/
  given : Option (Properties × Nat)

/-- A callback to a consumer. -/
structure Call where
  consumer : Consumer
  message : Message
  /-- Absent when there is no record to speak of. -/
  occasion : Option Occasion

/-- A callback to a listener. -/
structure Notification where
  listener : Service
  notice : Notice

/-- What exists with or without a manager. -/
structure World where
  directory : Directory := {}
  storage : Storage := {}
  access : Option AccessCheck := none
  /-- Every record ever made, by handle. -/
  records : List Record := []
  /-- The callbacks to consumers so far. -/
  calls : List Call := []
  /-- The callbacks to listeners so far. -/
  notifications : List Notification := []

instance : Inhabited World := ⟨{}⟩

/-- Waiting work, and whether more of it is accepted.

There is no bound to it.  All that the capacity of the settings does to a caller is to make it wait
for room, so it decides when a call comes to its turn in a run, and nothing here reads it; what
waits for whom in a bounded queue is the matter of `WorkQueue` and `Traffic`. -/
structure WorkLine (α : Type) where
  waiting : List α := []
  accepting : Bool := true

namespace WorkLine

variable {α : Type}

instance : Inhabited (WorkLine α) := ⟨{}⟩

/-- Adds an item, if the line accepts any. -/
def push (l : WorkLine α) (item : α) : WorkLine α :=
  if l.accepting then { l with waiting := l.waiting ++ [item] } else l

/-- Drops the item that waits longest. -/
def pop (l : WorkLine α) : WorkLine α := { l with waiting := l.waiting.tail }

/-- Accepts no further items. -/
def close (l : WorkLine α) : WorkLine α := { l with accepting := false }

end WorkLine

/-- Counts what became of deliveries. -/
structure Tally where
  /-- Properties that a consumer took. -/
  delivered : Nat := 0
  /-- Removals that a consumer took. -/
  removed : Nat := 0
  /-- Deliveries of generations that had been served already. -/
  stale : Nat := 0
  /-- Deliveries to consumers that may not see the record. -/
  denied : Nat := 0
  /-- Callbacks that failed. -/
  failed : Nat := 0
  /-- Notices that a listener took. -/
  noticed : Nat := 0
  deriving DecidableEq, Repr

instance : Inhabited Tally := ⟨{}⟩

/-- A manager in its world. -/
structure Session extends World where
  settings : Settings
  /-- Whether the manager made its own backend, which is lost with it. -/
  ownsStorage : Bool
  cache : Cache Handle := {}
  bindings : Bindings
  /-- The listeners that are told of changes. -/
  listeners : List Service
  plugins : Pipeline := {}
  /-- The tasks that wait for the update worker. -/
  updates : WorkLine Task := {}
  /-- The notices that wait for the notice worker, with those to be told. -/
  notices : WorkLine (Notice × List Service) := {}
  tally : Tally := {}

/-- The record of a handle; one that was never given out stands for an empty record. -/
def World.record (w : World) (h : Handle) : Record :=
  (w.records[h]?).getD { pid := "", factoryPid := none, home := "" }

namespace Session

variable (s : Session)

/-- The record of a handle. -/
def record (h : Handle) : Record := s.toWorld.record h

/-- Changes the record of a handle. -/
def change (h : Handle) (f : Record → Record) : Session :=
  { s with records := s.records.modify h f }

/-- Adds a record and gives out its handle. -/
def enroll (r : Record) : Handle × Session :=
  (s.records.length, { s with records := s.records ++ [r] })

/-- Adds to the counts. -/
def count (f : Tally → Tally) : Session := { s with tally := f s.tally }

/-- Whether the manager is in operation. -/
def isRunning : Bool := s.updates.accepting

/-- Queues a task. -/
def schedule (t : Task) : Session := { s with updates := s.updates.push t }

/-- Queues a notice about a record for the listeners of the moment, if there are any. -/
def announce (c : Change) (h : Handle) : Session :=
  if s.listeners.isEmpty then s
  else
    { s with
      notices := s.notices.push
        (⟨c, (s.record h).pid, (s.record h).factoryPid⟩, s.listeners) }

/-- Remembers or forgets a dynamic binding. -/
def assignBinding (pid : String) (location : Option String) : Session :=
  let (bindings, storage) := s.bindings.put pid location s.storage
  { s with bindings, storage }

/-- Binds an unowned record to a location, which is a change of its owner. -/
def bind (h : Handle) (location : String) : Session :=
  if (s.record h).owner.isSome then s
  else
    ((s.change h fun r => r.bind location).assignBinding (s.record h).pid (some location)
      ).announce .relocated h

/-- Whether a consumer at a location may see what the given owner owns. -/
def permits (location : String) (owner : Option String) : Bool :=
  Visibility.permits s.access location owner

end Session

/-- Whom a record is delivered to. -/
def Record.target (r : Record) : Target := .of r.pid r.factoryPid

end Provisioning
