import Provisioning.Directory

/-! # Targets of a configuration

A configuration goes to the consumers registered for its pid, or, when it is the member of a
factory, to the consumers registered for the factory.  The two differ in the identity they
are found under, in their kind, and in what is said to them.
-/
namespace Provisioning

/-- Whom a configuration is for. -/
inductive Target where
  | single (pid : String)
  | member (factoryPid pid : String)
  deriving DecidableEq, Repr

namespace Target

/-- The target of the configuration with a pid and perhaps a factory. -/
def of (pid : String) (factoryPid : Option String) : Target :=
  match factoryPid with
  | some f => .member f pid
  | none => .single pid

/-- The identity that consumers list and plugins are matched against. -/
def identity : Target → String
  | single pid => pid
  | member factoryPid _ => factoryPid

/-- The pid of the configuration. -/
def pid : Target → String
  | single pid => pid
  | member _ pid => pid

/-- The kind of the consumers. -/
def kind : Target → ConsumerKind
  | single _ => .single
  | member _ _ => .factory

/-- The live consumers of the right kind among those given, in the order of delivery. -/
def select (t : Target) (d : Directory) (candidates : List Consumer) : List Consumer :=
  Ranked.sort (fun a b => a.service.precedes b.service)
    (candidates.filter fun c => c.kind == t.kind && d.isLive c.service)

/-- The consumers that a configuration is delivered to, in order. -/
def resolve (t : Target) (d : Directory) : List Consumer :=
  t.select d (d.find t.identity t.kind)

/-- What is said to a consumer of the right kind: the properties, or that they are gone. -/
def message (t : Target) (properties : Option Properties) : Message :=
  match t, properties with
  | single _, p => .updated p
  | member _ pid, some p => .memberUpdated pid p
  | member _ pid, none => .memberDeleted pid

/-- What is reported instead of a call to a consumer of the other kind. -/
def mismatch (c : Consumer) : CallbackError :=
  .unexpected (c.service.shown ++ " is a " ++ c.kind.word ++ " consumer")

/-- The call that hands properties to a consumer, if its kind is right. -/
def call? (t : Target) (c : Consumer) (properties : Option Properties) : Option Message :=
  if c.kind == t.kind then some (t.message properties) else none

/-- The result of handing properties to a consumer. -/
def provide (t : Target) (d : Directory) (c : Consumer) (properties : Option Properties) :
    Except CallbackError Unit :=
  match t.call? c properties with
  | some m => (d.replies c.service m).result
  | none => .error (mismatch c)

end Target
end Provisioning
