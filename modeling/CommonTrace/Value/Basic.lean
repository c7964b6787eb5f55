import CommonTrace.Declaration.Basic
import CommonTrace.Number.Binary64
import CommonTrace.Number.Width
import CommonTrace.Scope.NodeId

/-!
# Decoded values

A value is what decoding a type at a bit offset yields. It keeps its type and
offset; a value made of others also keeps the scope node under which they are
registered.
-/
namespace CommonTrace

/-- A decoded value. -/
inductive Value where
  | integer (type : IntegerType) (offset : Nat) (value : Int)
  | float (type : FloatType) (offset : Nat) (value : Binary64)
  | enumeration (type : EnumType) (offset : Nat) (value : Int)
  | string (encoding : Encoding) (offset : Nat) (text : String)
  | struct (minAlignment : Alignment) (types : List (String × Declaration)) (offset : Nat)
      (node : NodeId) (fields : List (String × Value))
  | array (length : Nat) (element : Declaration) (offset : Nat) (node : NodeId)
      (elements : List Value)
  | sequence (length : FieldPath) (element : Declaration) (offset : Nat) (node : NodeId)
      (elements : List Value)
  | variant (tag : FieldPath) (options : List (String × Declaration)) (offset : Nat)
      (node : NodeId) (label : String) (current : Value)

namespace Value

/-- The type a value was decoded from. -/
def declaration : Value → Declaration
  | integer type _ _ => .integer type
  | float type _ _ => .float type
  | enumeration type _ _ => .enumeration type
  | string encoding _ _ => .string encoding
  | struct minAlignment types _ _ _ => .struct minAlignment types
  | array length element _ _ _ => .array length element
  | sequence length element _ _ _ => .sequence length element
  | variant tag options _ _ _ _ => .variant tag options

/-- The bit at which a value starts. -/
def offset : Value → Nat
  | integer _ offset _ => offset
  | float _ offset _ => offset
  | enumeration _ offset _ => offset
  | string _ offset _ => offset
  | struct _ _ offset _ _ => offset
  | array _ _ offset _ _ => offset
  | sequence _ _ offset _ _ => offset
  | variant _ _ offset _ _ _ => offset

/-- The number held by an integer or enumeration. -/
def integer? : Value → Option Int
  | integer _ _ value => some value
  | enumeration _ _ value => some value
  | _ => none

/-- The number held by an integer or enumeration, if it is an unsigned 64-bit integer. -/
def unsigned? (v : Value) : Option Nat :=
  v.integer?.bind (Width.unsigned? 64)

/-- The label of an enumeration, which may be missing; nothing for other values. -/
def enumLabel? : Value → Option (Option String)
  | enumeration type _ value => some (type.label? value)
  | _ => none

/-- The elements of an array or sequence. -/
def elements? : Value → Option (List Value)
  | array _ _ _ _ elements => some elements
  | sequence _ _ _ _ elements => some elements
  | _ => none

/-- The named fields of a struct. -/
def fields? : Value → Option (List (String × Value))
  | struct _ _ _ _ fields => some fields
  | _ => none

/-- The node under which the parts of a value made of others are registered. -/
def node? : Value → Option NodeId
  | struct _ _ _ node _ => some node
  | array _ _ _ node _ => some node
  | sequence _ _ _ node _ => some node
  | variant _ _ _ node _ _ => some node
  | _ => none

/-- A field of a struct by name. -/
def field? (v : Value) (name : String) : Option Value :=
  v.fields?.bind fun fields => (fields.find? (·.1 == name)).map (·.2)

/-- The 64-bit pattern of a number, sign extended. -/
def pattern (value : Int) : Nat := (value % Nat.pow 2 64).toNat

/-- The byte held by an integer, other values holding none. -/
def byte? : Value → Option UInt8
  | integer _ _ value => some (UInt8.ofNat (pattern value))
  | _ => none

/-- Whether the type of an array's elements makes the array a text. -/
def isTextElement : Declaration → Bool
  | .integer type => type.isText
  | _ => false

end Value

end CommonTrace
