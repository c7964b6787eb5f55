import CommonTrace.Declaration.Scalar

/-!
# Types of fields

A type says how a field is laid out. Arrays, sequences and structs are made of other
types; the length of a sequence and the alternative of a variant depend on fields
decoded before them, to which they refer by path. `WellFormed` holds of exactly the
types that the checked constructors build.
-/
namespace CommonTrace

/-- The type of a field. -/
inductive Declaration where
  | integer (type : IntegerType)
  | float (type : FloatType)
  | enumeration (type : EnumType)
  | string (encoding : Encoding)
  | struct (minAlignment : Alignment) (fields : List (String × Declaration))
  | array (length : Nat) (element : Declaration)
  | sequence (length : FieldPath) (element : Declaration)
  | variant (tag : FieldPath) (options : List (String × Declaration))

namespace Declaration

/-- The kind of a type. -/
def kind : Declaration → TypeKind
  | integer _ => .integer
  | float _ => .float
  | enumeration _ => .enumeration
  | string _ => .string
  | struct _ _ => .struct
  | array _ _ => .array
  | sequence _ _ => .sequence
  | variant _ _ => .variant

mutual

/-- The alignment of a field, in bits. A struct is aligned as its most aligned field; a
variant is not aligned, since the selected alternative aligns itself. -/
def alignment : Declaration → Nat
  | integer type => type.alignment.bits
  | float type => type.alignment.bits
  | enumeration type => type.container.alignment.bits
  | string _ => 8
  | struct minAlignment fields => max minAlignment.bits (fieldsAlignment fields)
  | array _ element => element.alignment
  | sequence _ element => element.alignment
  | variant _ _ => 1

/-- The greatest alignment among named types, 0 if there is none. -/
def fieldsAlignment : List (String × Declaration) → Nat
  | [] => 0
  | (_, type) :: rest => max type.alignment (fieldsAlignment rest)

end

/-- The first of some named types with a given name. -/
def named? (name : String) (types : List (String × Declaration)) : Option Declaration :=
  (types.find? (·.1 == name)).map (·.2)

/-- Adds a field to the fields of a struct. -/
def addField (fields : List (String × Declaration)) (field : String × Declaration) :
    Except Malformation (List (String × Declaration)) :=
  if field.1 = "" then .error .emptyFieldName
  else if field.1 ∈ fields.map (·.1) then .error (.duplicateField field.1)
  else .ok (fields ++ [field])

/-- A struct of the given fields, in order. -/
def ofFields (minAlignment : Nat) (fields : List (String × Declaration)) :
    Except Malformation Declaration :=
  if h : 0 < minAlignment then
    (fields.foldlM addField []).map (struct ⟨minAlignment, h⟩)
  else .error .structAlignment

/-- Adds an alternative to the alternatives of a variant. -/
def addOption (options : List (String × Declaration)) (option : String × Declaration) :
    Except Malformation (List (String × Declaration)) :=
  if option.1 ∈ options.map (·.1) then .error (.duplicateOption option.1)
  else .ok (options ++ [option])

mutual

/-- Whether the names of fields and alternatives in a type are as they have to be: those
of fields not empty, and both without repetition. -/
def WellFormed : Declaration → Prop
  | struct _ fields =>
    (fields.map (·.1)).Nodup ∧ "" ∉ fields.map (·.1) ∧ AllWellFormed fields
  | array _ element => element.WellFormed
  | sequence _ element => element.WellFormed
  | variant _ options => (options.map (·.1)).Nodup ∧ AllWellFormed options
  | _ => True

/-- Whether every one of some named types is well formed. -/
def AllWellFormed : List (String × Declaration) → Prop
  | [] => True
  | (_, type) :: rest => type.WellFormed ∧ AllWellFormed rest

end

end Declaration

/-- The type of a struct. -/
structure StructType where
  minAlignment : Alignment
  fields : List (String × Declaration)

/-- The struct as a type of fields. -/
def StructType.declaration (s : StructType) : Declaration := .struct s.minAlignment s.fields

/-- A type as the content of a dynamic scope, which has to be a struct. -/
def Declaration.asSection (scope : DynamicScope) : Declaration → Except Malformation StructType
  | .struct minAlignment fields => .ok ⟨minAlignment, fields⟩
  | other => .error (.sectionKind scope other.kind)

end CommonTrace
