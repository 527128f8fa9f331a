import Provisioning.Session.Admin
import Provisioning.Session.Hooks
import Provisioning.Session.Lifecycle

/-! # Steps of a session

Everything that can happen to a session, one thing at a time: an administrative call, a hook,
a change of the plugins or of the world around, a step of one of the two workers, and the
end.  A run is a list of actions; because the workers' steps are actions like all others,
runs cover every order in which calls and work may follow one another.

A call is one action, and so is a task from its first callback to its last: a run puts nothing
inside of either.  What a callback does is answer (`Reply`); a consumer or a listener that calls
the manager back does so by an action that comes after.
-/
namespace Provisioning

/-- What happens around a manager, whether there is one or not. -/
inductive WorldAction where
  /-- A provider is installed at a location, unless there is one. -/
  | install (location : String)
  | setState (location : String) (state : ProviderState)
  | uninstall (location : String)
  | addConsumer (kind : ConsumerKind) (location : String) (pids : List String) (ranking : Int)
  | addListener (location : String)
  | withdraw (id : Nat)
  /-- A service answers its callbacks in another way from now on. -/
  | behave (id : Nat) (reply : Message → Reply)
  /-- Something happens to a backend. -/
  | backend (name : String) (change : Backend → Backend)

/-- What can happen to a session. -/
inductive Action where
  | getOrCreate (pid : String) (location : Option String)
  | getExisting (pid : String)
  | createMember (factoryPid : String) (location : Option String) (names : List String)
  | members (factoryPid : String)
  | list (filter : Option String)
  | update (pid : String) (properties : Properties)
  | delete (pid : String)
  | setLocation (pid : String) (location : Option String)
  | getLocation (pid : String)
  | consumerRegistered (consumer : Consumer)
  | consumerWithdrawn (service : Nat)
  | listenerRegistered (listener : Service)
  | listenerWithdrawn (service : Nat)
  | locationUninstalled (location : String)
  | submit (task : Task)
  | addPlugin (rank : Int) (target : Option String) (plugin : Plugin)
  | removePlugin (id : Nat)
  | around (action : WorldAction)
  | runUpdate
  | runNotice
  | shutdown

/-- What an action answers. -/
inductive Answer where
  | done
  | record (handle : Option Handle)
  | pids (pids : List String)
  | records (records : List Record)
  | generation (n : Nat)
  | location (owner : Option String)
  | accepted (yes : Bool)
  | plugin (id : Nat)
  | refused (cause : AdminError)

namespace Answer

/-- The answer of a call, given how its result is answered. -/
def ofResult {α : Type} (f : α → Answer) : Except AdminError α → Answer
  | .ok a => f a
  | .error e => .refused e

end Answer

/-- Something happens around a manager. -/
def World.step (w : World) : WorldAction → World
  | .install location => { w with directory := (w.directory.provide location).2 }
  | .setState location state => { w with directory := w.directory.setState location state }
  | .uninstall location => { w with directory := w.directory.uninstall location }
  | .addConsumer kind location pids ranking =>
    { w with directory := (w.directory.registerConsumer kind location pids ranking).2 }
  | .addListener location => { w with directory := (w.directory.registerListener location).2 }
  | .withdraw id =>
    match w.directory.service? id with
    | some s => { w with directory := w.directory.withdraw s }
    | none => w
  | .behave id reply =>
    match w.directory.service? id with
    | some s => { w with directory := w.directory.behave s reply }
    | none => w
  | .backend name change =>
    { w with storage := w.storage.withBackend name (change (w.storage.backend name)) }

namespace Session

/-- The answer and the session that a call ends with. -/
def answering {α : Type} (f : α → Answer) (p : Except AdminError α × Session) :
    Answer × Session :=
  (Answer.ofResult f p.1, p.2)

/-- One thing happens to a session. -/
def step (s : Session) : Action → Answer × Session
  | .getOrCreate pid location =>
    answering (fun h => .record (some h)) (s.getOrCreate pid location)
  | .getExisting pid => answering .record (s.getExisting pid)
  | .createMember factoryPid location names =>
    answering .record (s.createMember factoryPid location names)
  | .members factoryPid => answering .pids (s.members factoryPid)
  | .list filter => answering .records (s.list filter, s)
  | .update pid p => answering .generation (s.update pid p)
  | .delete pid => answering (fun _ => .done) (s.delete pid)
  | .setLocation pid location => answering (fun _ => .done) (s.setLocation pid location)
  | .getLocation pid => answering .location (s.getLocation pid)
  | .consumerRegistered c => (.done, s.consumerRegistered c)
  | .consumerWithdrawn service => (.done, s.consumerWithdrawn service)
  | .listenerRegistered l => (.done, s.listenerRegistered l)
  | .listenerWithdrawn service => (.done, s.listenerWithdrawn service)
  | .locationUninstalled location => (.done, s.locationUninstalled location)
  | .submit t => (.accepted (s.submit t).1, (s.submit t).2)
  | .addPlugin rank target plugin =>
    let (id, plugins) := s.plugins.register rank target plugin
    (.plugin id, { s with plugins })
  | .removePlugin id =>
    let (found, plugins) := s.plugins.unregister id
    (.accepted found, { s with plugins })
  | .around action => (.done, { s with toWorld := s.toWorld.step action })
  | .runUpdate => (.done, s.runUpdate)
  | .runNotice => (.done, s.runNotice)
  | .shutdown => (.done, s.shutdown)

/-- A list of things happens to a session, one after the other. -/
def run (s : Session) : List Action → Session
  | [] => s
  | a :: rest => (s.step a).2.run rest

end Session
end Provisioning
