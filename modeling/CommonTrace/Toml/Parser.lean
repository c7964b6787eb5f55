/-!
# Parsers

A parser takes something from the start of a text, or fails. Every parser is total:
repetition ends where nothing is taken.
-/
namespace CommonTrace.Toml

/-- A parser of a text. -/
abbrev Parser := StateT (List Char) Option

namespace Parser

/-- Takes a given character. -/
def char (c : Char) : Parser Unit
  | [] => none
  | d :: rest => if d = c then some ((), rest) else none

/-- Takes all characters of a class. -/
def run (member : Char → Bool) : Parser (List Char) :=
  fun text => some (text.takeWhile member, text.dropWhile member)

/-- Takes all characters of a class, of which there has to be one at least. -/
def run1 (member : Char → Bool) : Parser (List Char) := do
  let taken ← run member
  if taken.isEmpty then failure
  return taken

/-- Fails unless all has been taken. -/
def finished : Parser Unit
  | [] => some ((), [])
  | _ :: _ => none

/-- Takes something if it is there. -/
def maybe {α : Type} (p : Parser α) : Parser (Option α) := fun text =>
  match p text with
  | some (a, rest) => some (some a, rest)
  | none => some (none, text)

/-- Takes something again and again while it is there. -/
def many {α : Type} (p : Parser α) (text : List Char) : Option (List α × List Char) :=
  match p text with
  | none => some ([], text)
  | some (a, rest) =>
    if rest.length < text.length then (many p rest).map fun (others, last) => (a :: others, last)
    else some ([], text)
termination_by text.length

/-- Takes parts with a separator between any two of them. -/
def separated {α : Type} (separator : Char) (p : Parser α) : Parser (List α) := do
  match ← maybe p with
  | none => return []
  | some first => return first :: (← many (char separator *> p))

end Parser

/-- Whether a character may stand in a comment and between quotes as it is. -/
def isPlain (c : Char) : Bool := c = '\t' ∨ ' ' ≤ c ∧ c ≠ '\x7f'

/-- Whether a character is blank space within a line. -/
def isBlank (c : Char) : Bool := c = ' ' ∨ c = '\t'

/-- Drops blank space within a line. -/
def blank : Parser Unit := discard (Parser.run isBlank)

/-- Takes the end of a line. -/
def newline : Parser Unit
  | '\n' :: rest => some ((), rest)
  | '\r' :: '\n' :: rest => some ((), rest)
  | _ => none

/-- Takes a comment. -/
def comment : Parser Unit := Parser.char '#' *> discard (Parser.run isPlain)

/-- Takes blank space and a comment up to the end of a line or of the text. -/
def lineEnd : Parser Unit := do
  blank
  discard (Parser.maybe comment)
  newline <|> Parser.finished

/-- Drops blank space, comments and ends of lines. -/
def filler : Parser Unit :=
  discard (Parser.many (discard (Parser.run1 isBlank) <|> newline <|> comment))

end CommonTrace.Toml
