import CommonTrace.Document.Basic

/-!
# Records in documents

A record is a table whose entries are known by name; entries of other names are
ignored. It may also be written as the list of its entries in their order, from which
only entries with a default may be missing. Whether further items may follow depends
on where the list stands.
-/
namespace CommonTrace

/-- The entries of a record, each known by its place and its name. -/
structure Record (α : Type) where
  positional : Bool
  entry? : Nat → String → Option α

namespace Record

/-- The record written as a table. -/
def ofTable {α : Type} (entries : List (String × α)) : Record α :=
  ⟨false, fun _ name => (entries.find? (·.1 == name)).map (·.2)⟩

/-- The record of at most `size` entries written as a list. -/
def ofList? {α : Type} (size : Nat) (surplus : Bool) (items : List α) : Option (Record α) :=
  if surplus ∨ items.length ≤ size then some ⟨true, fun place _ => items[place]?⟩ else none

/-- The record with every entry changed. -/
def map {α β : Type} (f : α → β) (r : Record α) : Record β :=
  ⟨r.positional, fun place name => (r.entry? place name).map f⟩

/-- An entry that has to be there. -/
def required {α β : Type} (r : Record α) (place : Nat) (name : String) (read : α → Option β) :
    Option β :=
  (r.entry? place name).bind read

/-- An entry with a default. -/
def withDefault {α β : Type} (r : Record α) (place : Nat) (name : String) (default : β)
    (read : α → Option β) : Option β :=
  match r.entry? place name with
  | some a => read a
  | none => some default

/-- An entry that may be null, and missing from a table. -/
def optional {α : Type} (r : Record Document) (place : Nat) (name : String)
    (read : Document → Option α) : Option (Option α) :=
  match r.entry? place name with
  | some .null => some none
  | some d => (read d).map some
  | none => if r.positional then none else some none

end Record

/-- A part of a document as a record of at most `size` entries. -/
def Document.record? (size : Nat) (surplus : Bool) (d : Document) : Option (Record Document) :=
  match d with
  | list items => Record.ofList? size surplus items
  | d => d.entries?.map .ofTable

end CommonTrace
