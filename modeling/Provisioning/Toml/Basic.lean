/-! # TOML documents

The tree of a TOML text, and how statements add to it.  A table remembers how it came about,
because that decides what may still be added: a table with a header of its own is complete,
one that was only implied by a longer header may get a header later, one that dotted keys
made may get further dotted keys, and an inline table is closed.
-/
namespace Provisioning

/-- How a table came about. -/
inductive TomlTable where
  | header
  | implied
  | dotted
  | inlined
  deriving DecidableEq, Repr

/-- The tree of a TOML text. -/
inductive Toml where
  | text (s : String)
  | integer (n : Int)
  | real (x : Float)
  | boolean (b : Bool)
  /-- A date, a time, or both, as written. -/
  | moment (s : String)
  | array (items : List Toml)
  | table (origin : TomlTable) (entries : List (String × Toml))
  /-- The elements of an array that headers build up. -/
  | tables (elements : List (List (String × Toml)))
  deriving Inhabited

namespace Toml

/-- The entries of a table, by key. -/
abbrev Entries := List (String × Toml)

/-- Puts a changed entry in place of the one with its key. -/
def replace (key : String) (item : Toml) (entries : Entries) : Entries :=
  entries.map fun e => if e.1 == key then (key, item) else e

/-- Changes the last element of an array of tables. -/
def changeLast? (change : Entries → Option Entries) : List Entries → Option (List Entries)
  | [] => none
  | [element] => (change element).map fun e => [e]
  | element :: rest => (changeLast? change rest).map fun r => element :: r

/-- Adds an item to a table under a dotted key, given by the keys in front and the last key.
The keys in front lead through tables that dotted keys made, into the last of them. -/
def assign? (key : String) (item : Toml) : List String → Entries → Option Entries
  | [], entries =>
    match entries.lookup key with
    | some _ => none
    | none => some (entries ++ [(key, item)])
  | k :: path, entries =>
    match entries.lookup k with
    | none => (assign? key item path []).map fun inner => entries ++ [(k, table .dotted inner)]
    | some (table origin inner) =>
      if origin = .dotted ∨ (origin = .implied ∧ path ≠ []) then
        (assign? key item path inner).map fun inner => replace k (table origin inner) entries
      else none
    | some (tables elements) =>
      if path = [] then none
      else
        (changeLast? (assign? key item path) elements).map fun es =>
          replace k (tables es) entries
    | some _ => none

/-- Changes the table that a path leads to.  Missing tables on the way are implied; an array
of tables is entered at its last element. -/
def descend? (change : Entries → Option Entries) : List String → Entries → Option Entries
  | [], entries => change entries
  | k :: path, entries =>
    match entries.lookup k with
    | none => (descend? change path []).map fun inner => entries ++ [(k, table .implied inner)]
    | some (table origin inner) =>
      if origin = .inlined then none
      else (descend? change path inner).map fun inner => replace k (table origin inner) entries
    | some (tables elements) =>
      (changeLast? (descend? change path) elements).map fun es => replace k (tables es) entries
    | some _ => none

/-- Gives a table its header. -/
def openTable? (key : String) (entries : Entries) : Option Entries :=
  match entries.lookup key with
  | none => some (entries ++ [(key, table .header [])])
  | some (table .implied inner) => some (replace key (table .header inner) entries)
  | some _ => none

/-- Adds an element to an array of tables. -/
def openElement? (key : String) (entries : Entries) : Option Entries :=
  match entries.lookup key with
  | none => some (entries ++ [(key, tables [[]])])
  | some (tables elements) => some (replace key (tables (elements ++ [[]])) entries)
  | some _ => none

/-- One line of a document. -/
inductive Statement where
  /-- A header: the keys of a table, or of an array of tables that gets an element. -/
  | header (isElement : Bool) (path : List String) (key : String)
  /-- A dotted key with its value. -/
  | assignment (path : List String) (key : String) (item : Toml)

/-- A document so far: its entries, and the path of the table that assignments go to. -/
structure Draft where
  entries : Entries := []
  current : List String := []

/-- Adds a statement to a document. -/
def Draft.add? (d : Draft) : Statement → Option Draft
  | .header isElement path key =>
    (descend? (if isElement then openElement? key else openTable? key) path d.entries).map
      fun entries => ⟨entries, path ++ [key]⟩
  | .assignment path key item =>
    (descend? (assign? key item path) d.current d.entries).map fun entries =>
      { d with entries }

/-- The entries of an inline table. -/
def inline? (members : List (List String × String × Toml)) : Option Entries :=
  members.foldlM (fun entries m => assign? m.2.1 m.2.2 m.1 entries) []

end Toml
end Provisioning
