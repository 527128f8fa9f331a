import Provisioning.Backend
import Provisioning.Text.Summary

/-! # Ranked storage

Backends are named and ranked.  A chain lists them by descending rank, equal ranks in the
order of addition: a dictionary is looked for along the chain, and a new one goes to its
first backend, the primary.
-/
namespace Provisioning

/-- A place in the chain: a rank and the name of a backend. -/
structure Link where
  rank : Int
  backend : String
  deriving DecidableEq, Repr

/-- Backends by descending rank. -/
abbrev Chain := List Link

/-- Adds a backend in front of the first one of lower rank. -/
def Chain.add (c : Chain) (rank : Int) (backend : String) : Chain :=
  Ranked.insertBefore (fun l => decide (l.rank < rank)) ⟨rank, backend⟩ c

/-- The ranks along the chain. -/
def Chain.summary (c : Chain) : String :=
  Text.summary "PersistenceChain"
    [("ranks", "[" ++ Text.commaSeparated (c.map fun l => toString l.rank) ++ "]")]

/-- The backends by name, and the chain that ranks them. -/
structure Storage where
  backends : ExactTable Backend := .empty
  chain : Chain := []

namespace Storage

instance : Inhabited Storage := ⟨{}⟩

/-- The backend of a name; a name without one stands for an empty backend. -/
def backend (s : Storage) (name : String) : Backend := (s.backends.get? name).getD {}

/-- Puts a backend in place. -/
def withBackend (s : Storage) (name : String) (b : Backend) : Storage :=
  { s with backends := s.backends.put name b }

/-- Adds a backend to the chain. -/
def add (s : Storage) (rank : Int) (name : String) : Storage :=
  { s with chain := s.chain.add rank name }

/-- The name of the backend of highest rank. -/
def primary (s : Storage) : Except StorageError String :=
  match s.chain with
  | [] => .error .noBackend
  | l :: _ => .ok l.backend

/-- The name of the first backend along the chain that holds an id. -/
def firstHaving (s : Storage) (id : String) : Option String :=
  (s.chain.find? fun l => (s.backend l.backend).holds id).map Link.backend

/-- Reads a dictionary of a backend. -/
def load (s : Storage) (name id : String) : Except StorageError Properties :=
  (s.backend name).load id

/-- Stores a dictionary in a backend. -/
def store (s : Storage) (name id : String) (p : Properties) : Except StorageError Storage :=
  ((s.backend name).store id p).map (s.withBackend name)

/-- Deletes a dictionary of a backend. -/
def delete (s : Storage) (name id : String) : Except StorageError Storage :=
  ((s.backend name).delete id).map (s.withBackend name)

end Storage
end Provisioning
