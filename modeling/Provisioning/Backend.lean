import Provisioning.Error
import Provisioning.Properties
import Provisioning.Ranked

/-! # Storage backends

A backend keeps dictionaries under ids.  It may be told to fail: all its writes, the writes
of some ids, the reading of some ids, or the listing.  A failed write changes nothing.
-/
namespace Provisioning

/-- A storage backend: its dictionaries, and what it currently fails at. -/
structure Backend where
  dictionaries : ExactTable Properties := .empty
  /-- Every write fails. -/
  failing : Bool := false
  /-- The ids whose writes fail. -/
  unwritable : List String := []
  /-- The ids whose dictionaries cannot be read. -/
  unreadable : List String := []
  /-- Listing fails. -/
  unlistable : Bool := false

namespace Backend

instance : Inhabited Backend := ⟨{}⟩

/-- Whether a dictionary is stored under an id. -/
def holds (b : Backend) (id : String) : Bool := b.dictionaries.contains id

/-- Reads the dictionary under an id. -/
def load (b : Backend) (id : String) : Except StorageError Properties :=
  if b.unreadable.contains id then .error (.corrupt id "injected")
  else
    match b.dictionaries.get? id with
    | some p => .ok p
    | none => .error (.notFound id)

/-- Whether a write of an id succeeds. -/
def writable (b : Backend) (id : String) : Bool := !b.failing && !b.unwritable.contains id

/-- What a failed write reports. -/
def writeFailure (id : String) : StorageError := .io id "injected failure"

/-- Puts a dictionary in place, whatever the backend fails at. -/
def place (b : Backend) (id : String) (p : Properties) : Backend :=
  { b with dictionaries := b.dictionaries.put id p }

/-- Takes a dictionary out, whatever the backend fails at. -/
def remove (b : Backend) (id : String) : Backend :=
  { b with dictionaries := b.dictionaries.erase id }

/-- Stores a dictionary in place of the one before. -/
def store (b : Backend) (id : String) (p : Properties) : Except StorageError Backend :=
  if b.writable id then .ok (b.place id p) else .error (writeFailure id)

/-- Deletes a dictionary; one that is not there is no failure. -/
def delete (b : Backend) (id : String) : Except StorageError Backend :=
  if b.writable id then .ok (b.remove id) else .error (writeFailure id)

/-- The dictionaries with their ids, in the order of the ids. -/
def listing (b : Backend) : List (String × Properties) :=
  Ranked.sort (fun d e => decide (d.1 < e.1)) b.dictionaries.entries

/-- Lists all dictionaries in the order of their ids. -/
def listAll (b : Backend) : Except StorageError (List Properties) :=
  if b.unlistable then .error (.io "*" "injected listing failure")
  else .ok (b.listing.map Prod.snd)

end Backend
end Provisioning
