import CommonTrace.Toml.Scalar
import CommonTrace.Toml.Table
import CommonTrace.Toml.Text

/-!
# Keys and values

A key is one name or several joined by points. A value is quoted, a word, or composed
of other values; how deep values and keys may be nested is limited.
-/
namespace CommonTrace.Toml

/-- How many parts a key may have, and how many values may enclose one another. -/
def depthLimit : Nat := 79

/-- Whether a character may stand in a name without quotes. -/
def isBare (c : Char) : Bool := c.isAlphanum || c = '-' || c = '_'

/-- A name between quotes, between apostrophes or without either. -/
def name : Parser String
  | '"' :: rest => (String.ofList <$> quoted) rest
  | '\'' :: rest => (String.ofList <$> literal) rest
  | rest => (String.ofList <$> Parser.run1 isBare) rest

/-- A key: the parts on the way, and the last part. -/
def key : Parser (List String × String) := do
  let names ← Parser.separated '.' (blank *> name <* blank)
  match names.getLast? with
  | none => failure
  | some last => if depthLimit < names.length then failure else return (names.dropLast, last)

/-- A key and the value assigned to it. -/
structure Assignment where
  path : List String
  key : String
  value : Document

/-- An assignment, given how to read its value. -/
def assignment (value : Parser Document) : Parser Assignment := do
  let (path, last) ← key
  Parser.char '='
  blank
  return { path, key := last, value := ← value }

/-- Makes all assignments, in order. -/
def Entries.assignAll (assignments : List Assignment) (entries : Entries) : Option Entries :=
  assignments.foldlM (fun entries a => entries.assign a.path a.key (.value a.value)) entries

/-- Whether a character may stand in a word. -/
def isWord (c : Char) : Bool := c.isAlphanum || c = '+' || c = '-' || c = '.' || c = '_' || c = ':'

/-- The value of a word. A blank may stand between a date and a time. -/
def word : Parser Document := do
  let first ← Parser.run1 isWord
  let time ←
    if isDate first then Parser.maybe (Parser.char ' ' *> Parser.run1 Digits.isDecimal)
    else pure none
  let whole ←
    match time with
    | none => pure first
    | some digits => do pure (first ++ 'T' :: digits ++ (← Parser.run isWord))
  match wordValue? whole with
  | some value => return value
  | none => failure

/-- The values of an array, given how to read them. -/
def array (value : Parser Document) : Parser Document := do
  let values ← Parser.separated ',' (filler *> value <* filler)
  unless values.isEmpty do discard (Parser.maybe (Parser.char ','))
  filler
  Parser.char ']'
  return .list values

/-- The assignments of a table written as a value, given how to read their values. -/
def inlineTable (value : Parser Document) : Parser Document := do
  let assignments ← Parser.separated ',' (assignment value <* blank)
  blank
  Parser.char '\x7d'
  match Entries.assignAll assignments [] with
  | some entries => return .table (entryDocuments entries)
  | none => failure

/-- A value in which at most `depth` values enclose one another. -/
def value (depth : Nat) : Parser Document := fun input =>
  match input, depth with
  | '[' :: rest, depth + 1 => array (value depth) rest
  | '\x7b' :: rest, depth + 1 => inlineTable (value depth) rest
  | '"' :: _, _ => (Document.text <$> text) input
  | '\'' :: _, _ => (Document.text <$> text) input
  | _, _ => word input

end CommonTrace.Toml
