import Provisioning.Error
import Provisioning.Properties
import Provisioning.Text.Summary

/-! # Records of configurations

What is known about one configuration: its identity and the backend it is stored in, its
properties, the location that owns it, a counter of its changes, and how far its consumers
have been served.  The dictionary that is stored for a record carries the automatic pids
and the static location beside the properties, and a record can be rebuilt from it.
-/
namespace Provisioning

/-- One configuration. -/
structure Record where
  pid : String
  factoryPid : Option String
  /-- The name of the backend that stores the record. -/
  home : String
  /-- The properties, absent until the first update. -/
  properties : Option Properties := none
  /-- The location set by an administrator. -/
  staticLocation : Option String := none
  /-- The location of the first consumer served. -/
  dynamicLocation : Option String := none
  /-- The number of changes; each change is a generation. -/
  counter : Nat := 0
  /-- The highest generation that all consumers have been served. -/
  delivered : Nat := 0
  /-- The highest generation that each consumer took, by service. -/
  watermarks : List (Nat × Nat) := []
  deleted : Bool := false

namespace Record

variable (r : Record)

/-- The location that the configuration belongs to. -/
def owner : Option String := r.staticLocation.or r.dynamicLocation

/-- Whether the owner was taken from a consumer. -/
def isDynamic : Bool := r.staticLocation.isNone && r.dynamicLocation.isSome

/-- Whether the configuration was never updated. -/
def isNew : Bool := r.properties.isNone

/-- Sets the automatic pids of the record. -/
def stamp (p : Properties) : Properties := Properties.stamp p r.pid r.factoryPid

/-- Replaces the properties; a change. -/
def commit (p : Properties) : Record :=
  { r with properties := some (r.stamp p), counter := r.counter + 1 }

/-- Sets or clears the static location and drops a dynamic one; a change. -/
def relocate (location : Option String) : Record :=
  { r with staticLocation := location, dynamicLocation := none, counter := r.counter + 1 }

/-- Binds an unowned record to a location; not a change. -/
def bind (location : String) : Record :=
  if r.owner.isSome then r else { r with dynamicLocation := some location }

/-- Takes up a remembered binding, if there is no static location. -/
def restore (location : Option String) : Record :=
  if r.staticLocation.isNone then { r with dynamicLocation := location } else r

/-- Whether the record is dynamically bound to a location. -/
def isBoundTo (location : String) : Bool :=
  r.staticLocation.isNone && r.dynamicLocation == some location

/-- Drops a dynamic binding to a location. -/
def release (location : String) : Record :=
  if r.isBoundTo location then { r with dynamicLocation := none } else r

/-- Whether all consumers have been served a generation or a later one. -/
def isStale (generation : Nat) : Bool := generation ≤ r.delivered

/-- All consumers have been served a generation; none counts that is still to come. -/
def advance (generation : Nat) : Record :=
  { r with delivered := max r.delivered (min generation r.counter) }

/-- The highest generation that a consumer took. -/
def watermark? (service : Nat) : Option Nat := r.watermarks.lookup service

/-- Whether a consumer took a generation or a later one. -/
def deliveredTo (service generation : Nat) : Bool :=
  match r.watermark? service with
  | some seen => generation ≤ seen
  | none => false

/-- Drops what a consumer took. -/
def forget (service : Nat) : Record :=
  { r with watermarks := r.watermarks.filter fun w => w.1 != service }

/-- A consumer took a generation. -/
def note (service generation : Nat) : Record :=
  let seen := ((r.watermark? service).map (max generation)).getD generation
  { r with watermarks := (service, seen) :: (r.forget service).watermarks }

/-- The dictionary stored for given properties and a given static location. -/
def dictionary (p : Option Properties) (location : Option String) : Properties :=
  let stamped := r.stamp (p.getD .empty)
  match location with
  | some l => stamped.put Properties.locationKey (.text l)
  | none => stamped

/-- The dictionary stored for the record. -/
def persisted : Properties := r.dictionary r.properties r.staticLocation

/-- The dictionary to store if the properties were committed. -/
def persistedWith (p : Properties) : Properties := r.dictionary (some p) r.staticLocation

/-- The dictionary to store if the static location were set or cleared. -/
def persistedAt (location : Option String) : Properties := r.dictionary r.properties location

/-- Rebuilds a record from its dictionary.  A dictionary with nothing beside the automatic
properties is that of a record which was never updated. -/
def ofDictionary (pid home : String) (stored : Properties) : Except StorageError Record :=
  match (Properties.text? stored Properties.pidKey).filter (· != pid) with
  | some other => .error (.corrupt pid ("stored under pid '" ++ other ++ "'"))
  | none =>
    let content := stored.erase Properties.locationKey
    let fresh : Record :=
      { pid
        factoryPid := Properties.text? stored Properties.factoryPidKey
        home
        staticLocation := Properties.text? stored Properties.locationKey }
    if content.keys.any fun k => !Properties.isAutomaticPid k then
      .ok { fresh with properties := some (fresh.stamp content), counter := 1 }
    else .ok fresh

/-- The record in one line. -/
def summary : String :=
  Text.openSummary "Configuration"
    [("pid", Text.quoted r.pid),
      ("factory_pid", Text.shownOption (r.factoryPid.map Text.quoted)),
      ("owner", Text.shownOption (r.owner.map Text.quoted)),
      ("generation", toString r.counter),
      ("last_delivered", toString r.delivered)]

end Record
end Provisioning
