import Provisioning.Storage

/-! # Dynamic bindings

Which location each configuration was dynamically bound to.  The table is kept in one
dictionary of the primary backend, as a list of pairs, because pids are exact while keys of
properties are not.  Every change is written through; a failing write leaves the table as
it is and the dictionary behind it.
-/
namespace Provisioning

/-- The location that each pid is bound to. -/
structure Bindings where
  /-- The id under which the table is stored. -/
  id : String
  /-- The name of the backend that stores the table. -/
  home : String
  table : ExactTable String := .empty

namespace Bindings

/-- The key of the list of pairs. -/
def listKey : String := "bindings"

/-- A pair as a value. -/
def encodePair (e : String × String) : Value := .list [.text e.1, .text e.2]

/-- The dictionary of a list of pairs. -/
def encode (pairs : List (String × String)) : Properties :=
  Table.empty.put listKey (.list (pairs.map encodePair))

/-- The pair that a value stands for. -/
def decodePair? : Value → Option (String × String)
  | .list [.text pid, .text location] => some (pid, location)
  | _ => none

/-- The pairs of a dictionary; what is no pair is left out. -/
def decode (stored : Properties) : List (String × String) :=
  match stored.get? listKey with
  | some (.list items) => items.filterMap decodePair?
  | _ => []

variable (t : Bindings)

/-- Writes the table; a failure is passed over. -/
def persist (s : Storage) : Storage :=
  match s.store t.home t.id (encode t.table.entries) with
  | .ok s' => s'
  | .error _ => s

/-- The stored pairs; a dictionary that is missing or cannot be read has none. -/
def storedPairs (id home : String) (s : Storage) : List (String × String) :=
  if (s.backend home).holds id then
    match s.load home id with
    | .ok stored => decode stored
    | .error _ => []
  else []

/-- Loads the table and drops the bindings to locations that are not installed.  When a
stored pair was dropped or overruled, the table is written back. -/
def load (id home : String) (installed : List String) (s : Storage) : Bindings × Storage :=
  let pairs := storedPairs id home s
  let t : Bindings :=
    { id, home, table := .ofList (pairs.filter fun e => installed.contains e.2) }
  (t, if t.table.size < pairs.length then t.persist s else s)

/-- The location that a pid is bound to. -/
def get? (pid : String) : Option String := t.table.get? pid

/-- The table with the binding of a pid set or cleared. -/
def assign (pid : String) (location : Option String) : Bindings :=
  match location with
  | some l => { t with table := t.table.put pid l }
  | none => { t with table := t.table.erase pid }

/-- Sets or clears the binding of a pid, and writes the table if that changed it. -/
def put (pid : String) (location : Option String) (s : Storage) : Bindings × Storage :=
  let t' := t.assign pid location
  (t', if t.get? pid == location then s else t'.persist s)

/-- The pids bound to a location. -/
def boundTo (location : String) : List String :=
  (t.table.entries.filter fun e => e.2 == location).map Prod.fst

/-- The table in one line. -/
def summary : String :=
  Text.openSummary "DynamicBindings"
    [("id", Text.quoted t.id),
      ("bindings", Text.braced (t.table.entries.map fun e =>
        Text.quoted e.1 ++ ": " ++ Text.quoted e.2))]

end Bindings
end Provisioning
