import Provisioning.Error
import Provisioning.Text.Blank
import Provisioning.Text.Summary
import Provisioning.Toml.Reader

/-! # Settings

How a manager is set up: the names of its two workers, the capacity of its queues, and the
id under which its dynamic bindings are stored.  Settings are read from a TOML text, in
which a missing setting takes its default and everything unknown is passed over.
-/
namespace Provisioning

/-- The settings of a manager. -/
structure Settings where
  /-- The name of the worker that serves consumers. -/
  updateWorker : String := "cfgadmin-updater"
  /-- The name of the worker that serves listeners. -/
  noticeWorker : String := "cfgadmin-events"
  /-- The most items that may wait in a queue; without one there is no bound. -/
  capacity : Option Nat := none
  /-- The id under which the dynamic bindings are stored. -/
  bindingsId : String := "cfgadmin.dynamic-bindings"
  deriving DecidableEq, Repr

namespace Settings

instance : Inhabited Settings := ⟨{}⟩

/-- Reads a setting that is a text. -/
def textSetting? (entries : Toml.Entries) (key : String) (default : String) : Option String :=
  match entries.lookup key with
  | none => some default
  | some (.text s) => some s
  | some _ => none

/-- Reads a setting that is a natural number and may be absent. -/
def numberSetting? (entries : Toml.Entries) (key : String) : Option (Option Nat) :=
  match entries.lookup key with
  | none => some none
  | some (.integer (.ofNat n)) => some (some n)
  | some _ => none

/-- Reads settings from a TOML text; a malformed text, or a setting of the wrong type, gives
none. -/
def parse? (s : String) : Option Settings := do
  let entries ← Toml.parse? s
  let defaults : Settings := {}
  some {
    updateWorker := ← textSetting? entries "update_thread_name" defaults.updateWorker
    noticeWorker := ← textSetting? entries "event_thread_name" defaults.noticeWorker
    capacity := ← numberSetting? entries "queue_capacity"
    bindingsId := ← textSetting? entries "dynamic_bindings_id" defaults.bindingsId }

/-- Refuses settings that no manager can work with. -/
def validate (s : Settings) : Except AdminError Unit :=
  if s.capacity = some 0 then .error (.settings "queue_capacity must be greater than zero")
  else if Text.isAllBlank s.bindingsId then
    .error (.settings "dynamic_bindings_id must not be empty")
  else .ok ()

/-- Settings in one line. -/
def summary (s : Settings) : String :=
  Text.summary "AdminConfig"
    [("update_thread_name", Text.quoted s.updateWorker),
      ("event_thread_name", Text.quoted s.noticeWorker),
      ("queue_capacity", Text.shownOption (s.capacity.map toString)),
      ("dynamic_bindings_id", Text.quoted s.bindingsId)]

end Settings
end Provisioning
