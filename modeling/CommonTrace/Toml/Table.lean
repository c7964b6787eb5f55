import CommonTrace.Document.Basic

/-!
# Tables under construction

A document opens its tables one after the other and assigns to keys within the table
opened last. A key of several parts creates tables on the way. What may still be added
to a table depends on how it came about: a table with a header of its own takes no
second header and nothing from outside, one that only a header below it implied may
still get its own, and one made by assignments takes further assignments only.
-/
namespace CommonTrace.Toml

/-- How a table came about. -/
inductive Origin where
  | declared
  | implied
  | assigned
  deriving DecidableEq, Repr

/-- What a key stands for. Of the tables of an array the newest is kept apart. -/
inductive Item where
  | value (value : Document)
  | table (origin : Origin) (entries : List (String × Item))
  | tables (newest : List (String × Item)) (older : List (List (String × Item)))
  deriving Inhabited

/-- The entries of a table. -/
abbrev Entries := List (String × Item)

mutual

/-- The document that an item is. -/
def Item.document : Item → Document
  | .value d => d
  | .table _ entries => .table (entryDocuments entries)
  | .tables newest older => .list (tableDocuments [.table (entryDocuments newest)] older)

/-- The documents of entries. -/
def entryDocuments : List (String × Item) → List (String × Document)
  | [] => []
  | (key, item) :: rest => (key, item.document) :: entryDocuments rest

/-- The documents of tables, the newest of which comes first, put before others. -/
def tableDocuments (newer : List Document) : List (List (String × Item)) → List Document
  | [] => newer
  | entries :: rest => tableDocuments (.table (entryDocuments entries) :: newer) rest

end

namespace Entries

/-- The item of a key. -/
def get? (entries : Entries) (key : String) : Option Item := entries.lookup key

/-- The entries with another item for a key. -/
def set (key : String) (item : Item) : Entries → Entries
  | [] => [(key, item)]
  | (other, old) :: rest =>
    if other = key then (key, item) :: rest else (other, old) :: set key item rest

/-- Assigns to a key of one or more parts, given the tables on the way there. The last of
these has to be a table made by assignments, and the key has to be new. -/
def assignBelow (key : String) (item : Item) : List String → Origin → Entries → Option Entries
  | [], origin, entries =>
    if origin = .assigned ∧ (entries.get? key).isNone then some (entries.set key item) else none
  | name :: path, _, entries =>
    match entries.get? name with
    | none => (assignBelow key item path .assigned []).map fun inner =>
      entries.set name (.table .assigned inner)
    | some (.table origin inner) =>
      if origin = .declared then none
      else (assignBelow key item path origin inner).map fun inner =>
        entries.set name (.table origin inner)
    | some (.tables newest older) => (assignBelow key item path .declared newest).map fun newest =>
      entries.set name (.tables newest older)
    | some (.value _) => none

/-- Assigns to a key of one or more parts, which has to be new. -/
def assign (entries : Entries) (path : List String) (key : String) (item : Item) :
    Option Entries :=
  match path with
  | [] => if (entries.get? key).isNone then some (entries.set key item) else none
  | path => assignBelow key item path .declared entries

/-- Opens the table of a header, or adds a table to the array of a header, and fills it. -/
def openAt (isArray : Bool) (fill : Entries → Option Entries) (key : String) :
    List String → Entries → Option Entries
  | [], entries =>
    match entries.get? key, isArray with
    | none, false => (fill []).map fun inner => entries.set key (.table .declared inner)
    | some (.table .implied inner), false =>
      (fill inner).map fun inner => entries.set key (.table .declared inner)
    | none, true => (fill []).map fun newest => entries.set key (.tables newest [])
    | some (.tables newest older), true =>
      (fill []).map fun added => entries.set key (.tables added (newest :: older))
    | _, _ => none
  | name :: path, entries =>
    match entries.get? name with
    | none => (openAt isArray fill key path []).map fun inner =>
      entries.set name (.table .implied inner)
    | some (.table origin inner) => (openAt isArray fill key path inner).map fun inner =>
      entries.set name (.table origin inner)
    | some (.tables newest older) => (openAt isArray fill key path newest).map fun newest =>
      entries.set name (.tables newest older)
    | some (.value _) => none

end Entries

end CommonTrace.Toml
