/-!
# Kinds of types
-/
namespace CommonTrace

/-- The kinds of types a field can have. -/
inductive TypeKind where
  | integer
  | float
  | enumeration
  | string
  | struct
  | array
  | sequence
  | variant
  deriving DecidableEq, Repr

/-- The name of a kind in reports. -/
def TypeKind.name : TypeKind → String
  | integer => "integer"
  | float => "floating point"
  | enumeration => "enumeration"
  | string => "string"
  | struct => "structure"
  | array => "array"
  | sequence => "sequence"
  | variant => "variant"

end CommonTrace
