import CommonTrace.Number.Shortest
import CommonTrace.Text.Lossy
import CommonTrace.Value.Basic

/-!
# Values as text

Structs, enumerations and variants are shown in braces and arrays in brackets,
except that an array of encoded bytes is shown as the text it holds.
-/
namespace CommonTrace.Value

/-- An integer in the base of its type. Bases other than ten show the bits of the field. -/
def integerText (type : IntegerType) (value : Int) : String :=
  let bits := (value % Nat.pow 2 type.size).toNat
  let digits := String.ofList (Nat.toDigits type.radix.base bits)
  match type.radix with
  | .binary => "0b" ++ digits
  | .octal => "0o" ++ digits
  | .hexadecimal => "0x" ++ digits
  | .decimal => toString value

/-- The text held by an array of bytes: up to its first zero byte. -/
def bytesText (elements : List Value) : String :=
  Text.lossy ((elements.filterMap byte?).takeWhile (· != 0))

/-- A text in braces. -/
def braced (inner : String) : String := "\x7b " ++ inner ++ " \x7d"

mutual

/-- The text of a value. -/
def text : Value → String
  | integer type _ value => integerText type value
  | float _ _ value => value.text
  | enumeration type _ value =>
    let container := "container = " ++ integerText type.container value
    match type.label? value with
    | some label => braced (s!"value = {label}, " ++ container)
    | none => braced container
  | string _ _ text => "\"" ++ text ++ "\""
  | struct _ _ _ _ fields => braced (", ".intercalate (fieldTexts fields))
  | array _ element _ _ elements =>
    if isTextElement element then "\"" ++ bytesText elements ++ "\""
    else "[" ++ ", ".intercalate (elementTexts elements) ++ "]"
  | sequence _ element _ _ elements =>
    if isTextElement element then "\"" ++ bytesText elements ++ "\""
    else "[" ++ ", ".intercalate (elementTexts elements) ++ "]"
  | variant _ _ _ _ label current => braced (s!"{label} = " ++ current.text)

/-- The texts of named fields, each after its name. -/
def fieldTexts : List (String × Value) → List String
  | [] => []
  | (name, value) :: rest => (s!"{name} = " ++ value.text) :: fieldTexts rest

/-- The texts of elements. -/
def elementTexts : List Value → List String
  | [] => []
  | value :: rest => value.text :: elementTexts rest

end

end CommonTrace.Value
