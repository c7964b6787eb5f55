import CommonTrace.Number.Digits
import CommonTrace.Toml.Parser

/-!
# Quoted texts

A text stands between quotes or apostrophes, of which there is one on either side or
three. Between three the text may have several lines, and a first end of line does not
belong to it. Escapes are known between quotes only.
-/
namespace CommonTrace.Toml

/-- The character with a number written in hexadecimal digits. -/
def scalar? (digits : List Char) : Option Char := do
  let n ← Digits.value? 16 digits
  if n.isValidChar then some (Char.ofNat n) else none

/-- The characters that a backslash stands before to stand for another. -/
def escape? : Char → Option Char
  | 'b' => some '\x08'
  | 't' => some '\t'
  | 'n' => some '\n'
  | 'f' => some '\x0c'
  | 'r' => some '\r'
  | '"' => some '"'
  | '\\' => some '\\'
  | _ => none

/-- Puts a character before what is read from the rest of a text. -/
def before (c : Option Char) (rest : Option (List Char × List Char)) :
    Option (List Char × List Char) := do
  let (text, last) ← rest
  return ((← c) :: text, last)

/-- The text up to a quote. -/
def quoted : Parser (List Char)
  | [] => none
  | '"' :: rest => some ([], rest)
  | '\\' :: 'u' :: a :: b :: c :: d :: rest => before (scalar? [a, b, c, d]) (quoted rest)
  | '\\' :: 'U' :: a :: b :: c :: d :: e :: f :: g :: h :: rest =>
    before (scalar? [a, b, c, d, e, f, g, h]) (quoted rest)
  | '\\' :: c :: rest => before (escape? c) (quoted rest)
  | c :: rest => before (if isPlain c ∧ c ≠ '\\' then some c else none) (quoted rest)

/-- The text up to an apostrophe. -/
def literal : Parser (List Char)
  | [] => none
  | '\'' :: rest => some ([], rest)
  | c :: rest => before (if isPlain c then some c else none) (literal rest)

/-- Where a text of several lines is read: in its lines, between a backslash and the end of
its line, or in the blank space that such a backslash removes. -/
inductive LineState where
  | inLine
  | lineEnd
  | removed

/-- The text up to three quotes. Up to two more belong to the text. -/
def quotedLines : LineState → Parser (List Char)
  | _, [] => none
  | .lineEnd, '\n' :: rest => quotedLines .removed rest
  | .lineEnd, '\r' :: '\n' :: rest => quotedLines .removed rest
  | .lineEnd, c :: rest => if isBlank c then quotedLines .lineEnd rest else none
  | .removed, '\n' :: rest => quotedLines .removed rest
  | .removed, ' ' :: rest => quotedLines .removed rest
  | .removed, '\t' :: rest => quotedLines .removed rest
  | .removed, '\r' :: '\n' :: rest => quotedLines .removed rest
  | _, '"' :: '"' :: '"' :: '"' :: '"' :: rest => some (['"', '"'], rest)
  | _, '"' :: '"' :: '"' :: '"' :: rest => some (['"'], rest)
  | _, '"' :: '"' :: '"' :: rest => some ([], rest)
  | _, '\n' :: rest => before (some '\n') (quotedLines .inLine rest)
  | _, '\r' :: '\n' :: rest => before (some '\n') (quotedLines .inLine rest)
  | _, '\\' :: 'u' :: a :: b :: c :: d :: rest =>
    before (scalar? [a, b, c, d]) (quotedLines .inLine rest)
  | _, '\\' :: 'U' :: a :: b :: c :: d :: e :: f :: g :: h :: rest =>
    before (scalar? [a, b, c, d, e, f, g, h]) (quotedLines .inLine rest)
  | _, '\\' :: '\n' :: rest => quotedLines .removed rest
  | _, '\\' :: '\r' :: '\n' :: rest => quotedLines .removed rest
  | _, '\\' :: c :: rest =>
    if isBlank c then quotedLines .lineEnd rest
    else before (escape? c) (quotedLines .inLine rest)
  | _, c :: rest =>
    before (if isPlain c ∧ c ≠ '\\' then some c else none) (quotedLines .inLine rest)

/-- The text up to three apostrophes. Up to two more belong to the text. -/
def literalLines : Parser (List Char)
  | [] => none
  | '\'' :: '\'' :: '\'' :: '\'' :: '\'' :: rest => some (['\'', '\''], rest)
  | '\'' :: '\'' :: '\'' :: '\'' :: rest => some (['\''], rest)
  | '\'' :: '\'' :: '\'' :: rest => some ([], rest)
  | '\n' :: rest => before (some '\n') (literalLines rest)
  | '\r' :: '\n' :: rest => before (some '\n') (literalLines rest)
  | c :: rest => before (if isPlain c then some c else none) (literalLines rest)

/-- Drops the end of a line if a text starts with it. -/
def firstNewline : Parser Unit := discard (Parser.maybe newline)

/-- A text between quotes or apostrophes. -/
def text : Parser String
  | '"' :: '"' :: '"' :: rest => (String.ofList <$> (firstNewline *> quotedLines .inLine)) rest
  | '\'' :: '\'' :: '\'' :: rest => (String.ofList <$> (firstNewline *> literalLines)) rest
  | '"' :: rest => (String.ofList <$> quoted) rest
  | '\'' :: rest => (String.ofList <$> literal) rest
  | _ => none

end CommonTrace.Toml
