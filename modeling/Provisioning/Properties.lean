import Provisioning.Table
import Provisioning.Text.LowerCase
import Provisioning.Value

/-! # Properties

The content of a configuration: values under keys that ignore case.  A key keeps the
spelling and the place of its first writing.  Three keys are automatic: the pid of a
configuration, the pid of its factory, and the location it is statically bound to; they are
set by the library and cannot be set by whoever writes the properties.
-/
namespace Provisioning

/-- Values under keys that ignore case, in order of arrival. -/
abbrev Properties := Table Text.lower Value

/-- Values under keys in which every spelling counts, in order of arrival. -/
abbrev ValueMap := ExactTable Value

namespace Properties

/-- The key of the pid. -/
def pidKey : String := "service.pid"

/-- The key of the pid of the factory. -/
def factoryPidKey : String := "service.factoryPid"

/-- The key of the location of a static binding. -/
def locationKey : String := "service.bundleLocation"

/-- The text under a key; a value of another type counts as absent. -/
def text? (p : Properties) (key : String) : Option String := (p.get? key).bind Value.text?

/-- Writes a text under a key, or removes the key. -/
def assignText (p : Properties) (key : String) (text : Option String) : Properties :=
  match text with
  | some s => p.put key (.text s)
  | none => p.erase key

/-- Sets the automatic pids; without a factory there is no factory pid. -/
def stamp (p : Properties) (pid : String) (factoryPid : Option String) : Properties :=
  assignText (p.put pidKey (.text pid)) factoryPidKey factoryPid

/-- The map from spellings to values. -/
def toMap (p : Properties) : ValueMap := .ofList p.entries

/-- Properties from a map in which every spelling counts: the first spelling of a key
stays, the last value wins. -/
def ofMap (m : ValueMap) : Properties := .ofList m.entries

/-- Whether two maps have the same keys, each with the same spelling and an equal value, in
any order. -/
def same (p q : Properties) : Bool :=
  p.size == q.size && p.entries.all fun e =>
    match q.entry? e.1 with
    | some e' => e.1 == e'.1 && e.2.same e'.2
    | none => false

/-- Whether a key is one of the automatic pids. -/
def isAutomaticPid (key : String) : Bool :=
  Text.lower key == Text.lower pidKey || Text.lower key == Text.lower factoryPidKey

end Properties
end Provisioning
