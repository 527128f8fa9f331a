import Provisioning.Directory

/-! # Plugins

A plugin changes the properties that a consumer is about to receive.  The plugins of a
pipeline run by ascending rank, equal ranks in the order of registration, each on what the
one before left; what a plugin changed before it failed stays.  The automatic pids are put
back after every plugin.
-/
namespace Provisioning

/-- What a plugin does to properties on their way to a service, and how it ends. -/
abbrev Plugin := Service → Properties → Properties × Reply

/-- A registered plugin. -/
structure PluginEntry where
  /-- Numbers the registrations from zero. -/
  id : Nat
  rank : Int
  /-- The pid or factory pid that the plugin is restricted to. -/
  target : Option String
  plugin : Plugin

namespace PluginEntry

/-- Whether a plugin runs for an identity. -/
def matchesIdentity (e : PluginEntry) (identity : String) : Bool :=
  match e.target with
  | some t => t == identity
  | none => true

/-- The name of a registration. -/
def name (id : Nat) : String := "plugin-" ++ toString id

end PluginEntry

/-- The registered plugins by rank. -/
structure Pipeline where
  entries : List PluginEntry := []
  /-- The number of registrations so far. -/
  registered : Nat := 0

namespace Pipeline

instance : Inhabited Pipeline := ⟨{}⟩

variable (p : Pipeline)

/-- Registers a plugin in front of the first one of higher rank. -/
def register (rank : Int) (target : Option String) (plugin : Plugin) : Nat × Pipeline :=
  (p.registered,
    { entries := Ranked.insertBefore (fun e => decide (rank < e.rank))
        ⟨p.registered, rank, target, plugin⟩ p.entries
      registered := p.registered + 1 })

/-- Removes a plugin; answers whether it was there. -/
def unregister (id : Nat) : Bool × Pipeline :=
  (p.entries.any fun e => e.id == id,
    { p with entries := p.entries.filter fun e => e.id != id })

/-- Writes a value under a key, or removes the key. -/
def assign (q : Properties) (key : String) (v : Option Value) : Properties :=
  match v with
  | some v => q.put key v
  | none => q.erase key

/-- Puts the automatic pids of the given properties back. -/
def restoreIdentity (given q : Properties) : Properties :=
  assign (assign q Properties.pidKey (given.get? Properties.pidKey))
    Properties.factoryPidKey (given.get? Properties.factoryPidKey)

/-- The plugins that run for an identity, in order. -/
def matching (identity : String) : List PluginEntry :=
  p.entries.filter fun e => e.matchesIdentity identity

/-- Runs the matching plugins on properties. -/
def run (identity : String) (s : Service) (given : Properties) : Properties :=
  (p.matching identity).foldl
    (fun q e => restoreIdentity given (e.plugin s q).1) given

/-- Runs the matching plugins on properties; absent ones pass through. -/
def apply (identity : String) (s : Service) (given : Option Properties) :
    Option Properties :=
  given.map (p.run identity s)

/-- The pipeline in one line. -/
def summary : String :=
  Text.summary "PluginPipeline" [("plugins", toString p.entries.length)]

end Pipeline

/-! ### Scripted plugins -/

/-- One action of a scripted plugin. -/
inductive Edit where
  | set (key : String) (value : Value)
  /-- Writes a text behind the text that is there, or behind none. -/
  | append (key text : String)
  | remove (key : String)
  /-- Writes what is known about the service that the properties are for. -/
  | describe (key : String)
  /-- Ends the plugin. -/
  | finish (reply : Reply)

namespace Edit

/-- What `describe` writes about a service. -/
def description (s : Service) : String :=
  s.shown ++ " r" ++ toString s.ranking ++ " " ++ Text.quotedList s.pids

/-- Runs actions in order, up to one that ends the plugin. -/
def run (s : Service) (q : Properties) : List Edit → Properties × Reply
  | [] => (q, .accept)
  | set key v :: rest => run s (q.put key v) rest
  | append key text :: rest =>
    run s (q.put key (.text ((Properties.text? q key).getD "" ++ text))) rest
  | remove key :: rest => run s (q.erase key) rest
  | describe key :: rest => run s (q.put key (.text (description s))) rest
  | finish reply :: _ => (q, reply)

/-- The plugin that runs a script. -/
def script (edits : List Edit) : Plugin := fun s q => run s q edits

end Edit
end Provisioning
