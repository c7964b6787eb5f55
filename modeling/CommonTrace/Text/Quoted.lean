import CommonTrace.Text.Printable

/-!
# Quoted text

A text shown between double quotes so that every character can be told apart:
quotes, backslashes and the usual controls have a two-character form, and a
character without a glyph of its own is written by its code point.
-/
namespace CommonTrace.Text

/-- One character as it is written between double quotes. -/
def quotedChar (c : Char) : String :=
  if c = '\x00' then "\\0"
  else if c = '\t' then "\\t"
  else if c = '\n' then "\\n"
  else if c = '\r' then "\\r"
  else if c = '"' then "\\\""
  else if c = '\\' then "\\\\"
  else if isPrintable c then c.toString
  else "\\u\x7b" ++ String.ofList (Nat.toDigits 16 c.toNat) ++ "\x7d"

/-- A text between double quotes. -/
def quoted (text : String) : String :=
  "\"" ++ text.foldl (fun acc c => acc ++ quotedChar c) "" ++ "\""

end CommonTrace.Text
