import CommonTrace.Number.Shortest
import CommonTrace.Value.Basic

/-!
# Attribute values

The scalar a field or property is reported by.
-/
namespace CommonTrace

/-- A scalar value of an attribute. -/
inductive AttributeValue where
  | integer (value : Int)
  | float (value : Binary64)
  | enumeration (label : Option String) (value : Int)
  | string (text : String)
  deriving DecidableEq, Repr

namespace AttributeValue

/-- The number held by an integer or enumeration. -/
def integer? : AttributeValue → Option Int
  | integer value => some value
  | enumeration _ value => some value
  | _ => none

/-- The number held by an integer or enumeration, if it is an unsigned 64-bit integer. -/
def unsigned? (v : AttributeValue) : Option Nat :=
  v.integer?.bind (Width.unsigned? 64)

/-- The text held by a string. -/
def string? : AttributeValue → Option String
  | string text => some text
  | _ => none

/-- The text of an attribute value. -/
def text : AttributeValue → String
  | integer value => toString value
  | float value => value.text
  | enumeration (some label) value => s!"{label} ({value})"
  | enumeration none value => toString value
  | string text => "\"" ++ text ++ "\""

/-- The scalar held by a value, if it holds one. -/
def ofValue? : Value → Option AttributeValue
  | .integer _ _ value => some (integer value)
  | .float _ _ value => some (float value)
  | .enumeration type _ value => some (enumeration (type.label? value) value)
  | .string _ _ text => some (string text)
  | _ => none

end AttributeValue

end CommonTrace
