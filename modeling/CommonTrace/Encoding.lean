import CommonTrace.Text.Keyword

/-!
# Character encoding

Strings carry an encoding, and so do the integers of an array that holds text.
-/
namespace CommonTrace

/-- How bytes stand for characters, if they do. -/
inductive Encoding where
  | none
  | utf8
  | ascii
  deriving DecidableEq, Repr, Inhabited

namespace Encoding

/-- The name of an encoding. -/
def name : Encoding → String
  | none => "none"
  | utf8 => "UTF8"
  | ascii => "ASCII"

/-- Reads the name of an encoding. -/
def parse (text : String) : Except Text.UnknownWord Encoding :=
  let word := Text.keyword text
  if word = "none" then .ok none
  else if word ∈ ["utf8", "utf-8"] then .ok utf8
  else if word = "ascii" then .ok ascii
  else .error ⟨.encoding, text⟩

end Encoding

end CommonTrace
