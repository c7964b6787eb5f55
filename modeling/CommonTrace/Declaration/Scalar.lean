import CommonTrace.ByteOrder
import CommonTrace.Encoding
import CommonTrace.Error
import CommonTrace.Text.Dotted

/-!
# Scalar types

The types of integers, floating point values and enumerations, and the paths by
which other types refer to fields. Each type carries the proof of its invariants;
its constructor checks them in a fixed order and reports the first that fails.
-/
namespace CommonTrace

/-- A positive number of bits that the position of a field is a multiple of. -/
structure Alignment where
  bits : Nat
  positive : 0 < bits := by decide
  deriving DecidableEq, Repr

/-- The alignment of whole bytes. -/
def Alignment.byte : Alignment := ⟨8, by decide⟩

/-- The alignment in bytes of types that fill whole bytes and in bits of all others. -/
def Alignment.natural (size : Nat) : Nat := if size % 8 = 0 then 8 else 1

/-- The bases in which integers are shown. -/
inductive Radix where
  | binary
  | octal
  | decimal
  | hexadecimal
  deriving DecidableEq, Repr

/-- The base of a radix. -/
def Radix.base : Radix → Nat
  | binary => 2
  | octal => 8
  | decimal => 10
  | hexadecimal => 16

/-- The radix with a given base. -/
def Radix.ofBase? (base : Nat) : Option Radix :=
  if base = 2 then some binary
  else if base = 8 then some octal
  else if base = 10 then some decimal
  else if base = 16 then some hexadecimal
  else none

/-- The type of an integer field. -/
structure IntegerType where
  size : Nat
  size_pos : 0 < size
  size_le : size ≤ 64
  isSigned : Bool
  order : ByteOrder
  radix : Radix
  alignment : Alignment
  encoding : Encoding
  deriving DecidableEq, Repr

namespace IntegerType

/-- An integer type of the given layout. -/
def ofLayout (size : Nat) (isSigned : Bool) (order : ByteOrder) (base alignment : Nat)
    (encoding : Encoding) : Except Malformation IntegerType :=
  if hs : 0 < size ∧ size ≤ 64 then
    if ha : 0 < alignment then
      match Radix.ofBase? base with
      | some radix =>
        .ok ⟨size, hs.1, hs.2, isSigned, order, radix, ⟨alignment, ha⟩, encoding⟩
      | none => .error (.integerBase base)
    else .error .integerAlignment
  else .error (.integerSize size)

/-- A decimal integer type with the natural alignment and no encoding. -/
def plain (size : Nat) (isSigned : Bool) (order : ByteOrder) : Except Malformation IntegerType :=
  ofLayout size isSigned order 10 (Alignment.natural size) .none

/-- The 64-bit integers in which constants are kept. -/
def word (isSigned : Bool) (order : ByteOrder) : IntegerType :=
  ⟨64, by decide, by decide, isSigned, order, .decimal, .byte, .none⟩

/-- The greatest unsigned value of the width. -/
def maxValue (t : IntegerType) : Nat := Nat.pow 2 t.size - 1

/-- Whether an array of such integers holds text. -/
def isText (t : IntegerType) : Bool := t.size == 8 && t.encoding != .none

end IntegerType

/-- The floating point formats a field can have. -/
inductive Precision where
  | single
  | double
  deriving DecidableEq, Repr

/-- The width of the exponent. -/
def Precision.exponentBits : Precision → Nat
  | single => 8
  | double => 11

/-- The width of the significand, the leading bit counted. -/
def Precision.mantissaBits : Precision → Nat
  | single => 24
  | double => 53

/-- The type of a floating point field. -/
structure FloatType where
  precision : Precision
  order : ByteOrder
  alignment : Alignment
  deriving DecidableEq, Repr

/-- A floating point type of the given layout. -/
def FloatType.ofLayout (exponentBits mantissaBits : Nat) (order : ByteOrder) (alignment : Nat) :
    Except Malformation FloatType :=
  let precision? :=
    if exponentBits = 8 ∧ mantissaBits = 24 then some Precision.single
    else if exponentBits = 11 ∧ mantissaBits = 53 then some Precision.double
    else none
  match precision? with
  | none => .error (.floatLayout exponentBits mantissaBits)
  | some precision =>
    if ha : 0 < alignment then .ok ⟨precision, order, ⟨alignment, ha⟩⟩
    else .error .floatAlignment

/-- A label for a range of values, both ends included. -/
structure Mapping where
  low : Int
  high : Int
  label : String
  low_le_high : low ≤ high
  deriving DecidableEq, Repr

/-- The type of an enumeration field: an integer whose values may have labels. -/
structure EnumType where
  container : IntegerType
  mappings : List Mapping
  deriving DecidableEq, Repr

namespace EnumType

/-- Adds a range after the others. -/
def addMapping (t : EnumType) (low high : Int) (label : String) : Except Malformation EnumType :=
  if h : low ≤ high then .ok { t with mappings := t.mappings ++ [⟨low, high, label, h⟩] }
  else .error (.invertedMapping label low high)

/-- The label of the first range that holds a value. -/
def label? (t : EnumType) (value : Int) : Option String :=
  (t.mappings.find? fun m => m.low ≤ value && value ≤ m.high).map (·.label)

end EnumType

/-- A dotted path of field names, none of them empty. -/
structure FieldPath where
  text : String
  valid : "" ∉ Text.splitDots text
  deriving DecidableEq, Repr

/-- Reads a field path. -/
def FieldPath.parse (text : String) : Except Malformation FieldPath :=
  if h : "" ∉ Text.splitDots text then .ok ⟨text, h⟩ else .error (.fieldPath text)

/-- The names along a path. -/
def FieldPath.tokens (path : FieldPath) : List String := Text.splitDots path.text

end CommonTrace
