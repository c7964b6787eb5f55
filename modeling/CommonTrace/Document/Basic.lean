import CommonTrace.Number.Width

/-!
# Documents

A document is data as configuration files and messages write it: named entries,
lists and scalars. Numbers are told apart by how they were written, since formats
differ in the numbers they can write: whole numbers that carry no sign of their own,
whole numbers that may, and all others, whose value no reader asks for. Lists are read
more freely in a configuration file than in a message.
-/
namespace CommonTrace

/-- A part of a document. -/
inductive Document where
  | null
  | boolean (value : Bool)
  | natural (value : Nat)
  | integer (value : Int)
  | real
  | date (text : String)
  | text (value : String)
  | list (items : List Document)
  | table (entries : List (String × Document))
  deriving Inhabited

/-- What a document is part of. -/
inductive DocumentForm where
  | configuration
  | message
  deriving DecidableEq, Repr

/-- Whether bytes may be given as a list of numbers. -/
def DocumentForm.listsBytes : DocumentForm → Bool
  | configuration => true
  | message => false

/-- Whether a record written as a list may be followed by items that are ignored. -/
def DocumentForm.allowsSurplus : DocumentForm → Bool
  | configuration => true
  | message => false

namespace Document

/-- The name of the only entry of a date that is read as a table: its text. -/
def dateEntry : String := "$__toml_private_datetime"

/-- The entries of a table. -/
def entries? : Document → Option (List (String × Document))
  | table entries => some entries
  | date value => some [(dateEntry, text value)]
  | _ => none

/-- A truth value. -/
def boolean? : Document → Option Bool
  | boolean value => some value
  | _ => none

/-- A text. -/
def text? : Document → Option String
  | text value => some value
  | _ => none

/-- A whole number. -/
def integer? : Document → Option Int
  | natural value => some value
  | integer value => some value
  | _ => none

/-- A whole number from zero up to, but not including, a power of two. -/
def unsigned? (bits : Nat) (d : Document) : Option Nat :=
  d.integer?.bind (Width.unsigned? bits)

/-- A whole number that fits into 64 bits with a sign. -/
def signed? (d : Document) : Option Int :=
  d.integer?.bind (Width.signed? 64)

/-- A list each item of which is read alike. -/
def listOf? {α : Type} (read : Document → Option α) : Document → Option (List α)
  | list items => items.mapM read
  | _ => none

/-- Bytes given as a list of numbers, of which the first `count` are read. -/
def bytes? (count : Nat) : Document → Option (List UInt8)
  | list items => (items.take count).mapM fun d => (d.unsigned? 8).map UInt8.ofNat
  | _ => none

/-- A text that is read further. -/
def word? {ε α : Type} (parse : String → Except ε α) (d : Document) : Option α :=
  d.text?.bind fun text => (parse text).toOption

end Document

end CommonTrace
