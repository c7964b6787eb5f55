import CommonTrace.Toml.Value

/-!
# Documents as text

A document is written in lines: assignments, headers that open a table or add one to
an array of tables, comments and blank lines. What stands before the first header
belongs to the document itself.
-/
namespace CommonTrace.Toml

/-- What a line says. -/
inductive Line where
  | assignment (assignment : Assignment)
  | header (isArray : Bool) (path : List String) (key : String)
  | empty

/-- A header, in brackets of which there are two for a table of an array. -/
def header : Parser Line := do
  Parser.char '['
  let isArray := (← Parser.maybe (Parser.char '[')).isSome
  let (path, last) ← key
  Parser.char ']'
  if isArray then Parser.char ']'
  return .header isArray path last

/-- A line. -/
def line : Parser Line := do
  blank
  let line ← header <|> Line.assignment <$> assignment (value depthLimit) <|> pure .empty
  lineEnd
  return line

/-- A header and the assignments below it, in order. -/
structure Block where
  isArray : Bool
  path : List String
  key : String
  assignments : List Assignment

/-- The assignments before the first header, and the blocks that follow. -/
def blocks : List Line → List Assignment × List Block
  | [] => ([], [])
  | .empty :: rest => blocks rest
  | .assignment a :: rest =>
    let (leading, later) := blocks rest
    (a :: leading, later)
  | .header isArray path key :: rest =>
    let (assignments, later) := blocks rest
    ([], { isArray, path, key, assignments } :: later)

/-- The entries of a document, given its lines. -/
def entriesOf? (lines : List Line) : Option Entries := do
  let (leading, later) := blocks lines
  let entries ← Entries.assignAll leading []
  later.foldlM (fun entries block =>
    entries.openAt block.isArray (Entries.assignAll block.assignments) block.key block.path) entries

/-- The lines of a document. A byte order mark may stand before them. -/
def lines : Parser (List Line) := do
  discard (Parser.maybe (Parser.char '\ufeff'))
  let lines ← Parser.many line
  Parser.finished
  return lines

/-- Reads a document. -/
def parse? (text : String) : Option Document := do
  let (lines, _) ← lines text.toList
  let entries ← entriesOf? lines
  return .table (entryDocuments entries)

end CommonTrace.Toml
