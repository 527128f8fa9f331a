import Provisioning.Error
import Provisioning.Notice
import Provisioning.Properties
import Provisioning.Ranked
import Provisioning.Text.Summary

/-! # The service directory

Providers are installed at locations and register services: consumers of configurations and
listeners to changes.  A registration is data; whether it still counts is asked of the
directory at the time of use, because a provider changes its state and a service may be
withdrawn while work for it is on its way.  The directory also says how each service answers
a callback.
-/
namespace Provisioning

/-- The states of a provider. -/
inductive ProviderState where
  | installed
  | resolved
  | starting
  | active
  | stopping
  | uninstalled
  deriving DecidableEq, Repr

/-- The registration of a service. -/
structure Service where
  /-- Numbers the registrations from one. -/
  id : Nat
  ranking : Int := 0
  /-- The identities whose configurations the service wants. -/
  pids : List String := []
  /-- The location of the provider. -/
  location : String
  /-- The provider, by its number in the directory. -/
  provider : Nat
  deriving DecidableEq, Repr

namespace Service

/-- A service in short. -/
def shown (s : Service) : String := "service#" ++ toString s.id ++ " (" ++ s.location ++ ")"

/-- A service in one line. -/
def summary (s : Service) : String :=
  Text.summary "ServiceRef"
    [("id", toString s.id), ("ranking", toString s.ranking), ("pids", Text.quotedList s.pids),
      ("location", Text.quoted s.location)]

/-- The line of a service that listens to changes. -/
def listenerSummary (s : Service) : String :=
  Text.openSummary "ListenerRef" [("service", s.summary)]

/-- The order of delivery: the higher ranking first, then the earlier registration. -/
def precedes (s t : Service) : Bool :=
  decide (t.ranking < s.ranking) || (s.ranking == t.ranking && decide (s.id < t.id))

end Service

/-- What a consumer consumes: the configuration of a pid, or every member of a factory. -/
inductive ConsumerKind where
  | single
  | factory
  deriving DecidableEq, Repr

/-- The word for a kind of consumer. -/
def ConsumerKind.word : ConsumerKind → String
  | single => "Single"
  | factory => "Factory"

/-- A registered consumer. -/
structure Consumer where
  service : Service
  kind : ConsumerKind
  deriving DecidableEq, Repr

/-- A consumer in one line. -/
def Consumer.summary (c : Consumer) : String :=
  Text.summary "ConsumerRef" [("service", c.service.summary), ("kind", c.kind.word)]

/-- What is said to a service. -/
inductive Message where
  /-- To a consumer of one configuration: its properties, or that there are none. -/
  | updated (properties : Option Properties)
  /-- To a consumer of a factory: the properties of a member. -/
  | memberUpdated (pid : String) (properties : Properties)
  /-- To a consumer of a factory: that a member is gone. -/
  | memberDeleted (pid : String)
  /-- To a listener. -/
  | noticed (notice : Notice)

/-- How a callback ends. -/
inductive Reply where
  | accept
  | fail (cause : CallbackError)
  /-- The callback breaks down instead of answering. -/
  | crash (message : String)

/-- The result of a callback: one that breaks down counts as failed. -/
def Reply.result : Reply → Except CallbackError Unit
  | accept => .ok ()
  | fail cause => .error cause
  | crash message => .error (.unexpected ("panic: " ++ message))

/-- Providers, and the services that they ever registered. -/
structure Directory where
  /-- The states of the providers, by number. -/
  states : List ProviderState := []
  /-- The provider that a location stands for now, by number. -/
  providers : ExactTable Nat := .empty
  /-- Every consumer ever registered, in the order of registration. -/
  consumers : List Consumer := []
  /-- Every listener ever registered, in the order of registration. -/
  listeners : List Service := []
  /-- The registrations that were withdrawn. -/
  withdrawn : List Service := []
  /-- How each service answers. -/
  replies : Service → Message → Reply := fun _ _ => .accept

namespace Directory

instance : Inhabited Directory := ⟨{}⟩

variable (d : Directory)

/-- The provider of a location, installed and active when it is new. -/
def provide (location : String) : Nat × Directory :=
  match d.providers.get? location with
  | some n => (n, d)
  | none =>
    (d.states.length,
      { d with
        states := d.states ++ [.active]
        providers := d.providers.put location d.states.length })

/-- Sets the state of the provider of a location. -/
def setState (location : String) (state : ProviderState) : Directory :=
  let (n, d') := d.provide location
  { d' with states := d'.states.set n state }

/-- Uninstalls the provider of a location and forgets it: the location stands for a new
provider when it is mentioned again. -/
def uninstall (location : String) : Directory :=
  match d.providers.get? location with
  | some n =>
    { d with
      states := d.states.set n .uninstalled
      providers := d.providers.erase location }
  | none => d

/-- The state of the provider of a service. -/
def stateOf (s : Service) : ProviderState := (d.states[s.provider]?).getD .uninstalled

/-- Whether a service was not withdrawn. -/
def isRegistered (s : Service) : Bool := !d.withdrawn.contains s

/-- Whether a service may be called: registered, by a provider that is not uninstalled. -/
def isLive (s : Service) : Bool := d.isRegistered s && d.stateOf s != .uninstalled

/-- The number of services ever registered. -/
def registrations : Nat := d.consumers.length + d.listeners.length

/-- The next registration, of a provider at a location. -/
def enroll (location : String) (pids : List String) (ranking : Int) : Service × Directory :=
  let (n, d') := d.provide location
  ({ id := d.registrations + 1, ranking, pids, location, provider := n }, d')

/-- Registers a consumer. -/
def registerConsumer (kind : ConsumerKind) (location : String) (pids : List String)
    (ranking : Int) : Consumer × Directory :=
  let (s, d') := d.enroll location pids ranking
  (⟨s, kind⟩, { d' with consumers := d'.consumers ++ [⟨s, kind⟩] })

/-- Registers a listener. -/
def registerListener (location : String) : Service × Directory :=
  let (s, d') := d.enroll location [] 0
  (s, { d' with listeners := d'.listeners ++ [s] })

/-- Withdraws a service. -/
def withdraw (s : Service) : Directory := { d with withdrawn := s :: d.withdrawn }

/-- Sets how a service answers from now on. -/
def behave (s : Service) (reply : Message → Reply) : Directory :=
  { d with replies := fun t => if t = s then reply else d.replies t }

/-- The registered consumers of a kind that list an identity. -/
def find (identity : String) (kind : ConsumerKind) : List Consumer :=
  d.consumers.filter fun c =>
    d.isRegistered c.service && c.kind == kind && c.service.pids.contains identity

/-- The registered listeners. -/
def currentListeners : List Service := d.listeners.filter d.isRegistered

/-- The locations whose provider is not uninstalled. -/
def installedLocations : List String :=
  (d.providers.entries.filter fun e => d.states[e.2]? != some .uninstalled).map Prod.fst

/-- The consumer of an id. -/
def consumer? (id : Nat) : Option Consumer := d.consumers.find? fun c => c.service.id == id

/-- The listener of an id. -/
def listener? (id : Nat) : Option Service := d.listeners.find? fun s => s.id == id

/-- The service of an id. -/
def service? (id : Nat) : Option Service :=
  ((d.consumer? id).map Consumer.service).or (d.listener? id)

end Directory
end Provisioning
