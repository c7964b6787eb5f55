import CommonTrace.Decoding

/-!
# Decoding with lexical scopes

The meaning of decoding, told without a tree of scopes. What is decoded is a tree of
values, of which the part up to the cursor is known: every composite that is being decoded
has its first members, the last of which may be unfinished itself. A relative path is
tried from the composite that refers by it, then from each of those around it in turn. It
leads from member to member, through unfinished ones too, but has to end at a complete one.

Members are named by the field of a struct, the index of an element or the label of an
alternative. Of members with the same name the last one counts.
-/
namespace CommonTrace

/-- A decoded value, apart from where its parts are registered. -/
inductive Datum where
  | integer (type : IntegerType) (offset : Nat) (value : Int)
  | float (type : FloatType) (offset : Nat) (value : Binary64)
  | enumeration (type : EnumType) (offset : Nat) (value : Int)
  | string (encoding : Encoding) (offset : Nat) (text : String)
  | struct (minAlignment : Alignment) (types : List (String × Declaration)) (offset : Nat)
      (fields : List (String × Datum))
  | array (length : Nat) (element : Declaration) (offset : Nat) (elements : List Datum)
  | sequence (length : FieldPath) (element : Declaration) (offset : Nat)
      (elements : List Datum)
  | variant (tag : FieldPath) (options : List (String × Declaration)) (offset : Nat)
      (label : String) (current : Datum)

namespace Datum

/-- The number held by an integer or enumeration, if it is an unsigned 64-bit integer. -/
def unsigned? : Datum → Option Nat
  | integer _ _ value => Width.unsigned? 64 value
  | enumeration _ _ value => Width.unsigned? 64 value
  | _ => none

/-- The label of an enumeration, which may be missing; nothing for other values. -/
def enumLabel? : Datum → Option (Option String)
  | enumeration type _ value => some (type.label? value)
  | _ => none

/-- Elements under their indices. -/
def indexed (elements : List Datum) : List (String × Datum) :=
  elements.mapIdx fun index element => (toString index, element)

/-- What a value is made of, by name and in order. -/
def members : Datum → List (String × Datum)
  | struct _ _ _ fields => fields
  | array _ _ _ elements => indexed elements
  | sequence _ _ _ elements => indexed elements
  | variant _ _ _ label current => [(label, current)]
  | _ => []

end Datum

namespace Lexical

/-- The last of some named things with a given name. -/
def last? {α : Type} (name : String) (things : List (String × α)) : Option α :=
  things.reverse.lookup name

/-- What is known of a value: all of it, or the members it has so far. -/
inductive Content where
  | complete (datum : Datum)
  | unfinished (members : List (String × Content))

namespace Content

/-- Complete values under their names. -/
def decoded (members : List (String × Datum)) : List (String × Content) :=
  members.map fun (name, datum) => (name, complete datum)

/-- A value of which some members are complete. -/
def having (members : List (String × Datum)) : Content := unfinished (decoded members)

/-- A value of which some members are complete and one more is known in part. -/
def holding (members : List (String × Datum)) (name : String) (inner : Content) : Content :=
  unfinished (decoded members ++ [(name, inner)])

/-- The value that is known, if all of it is. -/
def datum? : Content → Option Datum
  | complete datum => some datum
  | unfinished _ => none

/-- What is known of a member. -/
def member? (name : String) : Content → Option Content
  | complete datum => last? name (decoded datum.members)
  | unfinished members => last? name members

/-- The complete value that names lead to from member to member. -/
def below? : Content → List String → Option Datum
  | content, [] => content.datum?
  | content, name :: names => (content.member? name).bind (·.below? names)

end Content

/-- What is around a value that is being decoded: the dynamic scope that it is the content
of, with what the other ones hold; or the members before it of the value that it is a member
of, with what is around that one. -/
inductive Surroundings where
  | root (scope : DynamicScope) (others : DynamicScope → Content)
  | within (outer : Surroundings) (members : List (String × Datum)) (name : String)

namespace Surroundings

/-- The value that names lead to from the closest of a value, of which `inner` is known, and
those around it. -/
def nearest? (names : List String) : Surroundings → Content → Option Datum
  | root _ _, inner => inner.below? names
  | within outer members name, inner =>
    (inner.below? names).or (nearest? names outer (.holding members name inner))

/-- What is known of the content of a dynamic scope. -/
def content : Surroundings → Content → DynamicScope → Content
  | root own others, inner, scope => if scope = own then inner else others scope
  | within outer members name, inner, scope => outer.content (.holding members name inner) scope

/-- The value that a list of names stands for, as seen from a value of which `inner` is known. -/
def find? (around : Surroundings) (inner : Content) (names : List String) : Option Datum :=
  match names with
  | [] => none
  | first :: _ =>
    if first ∈ DynamicScope.reserved then
      (DynamicScope.split? names).bind fun (scope, rest) => (around.content inner scope).below? rest
    else around.nearest? names inner

end Surroundings

/-- A step of decoding, which has nothing but the cursor. -/
abbrev Reading := StateT Cursor (Except Error)

/-- The position of the cursor. -/
def position : Reading Nat := fun c => .ok (c.position, c)

/-- Moves to the next multiple of an alignment. -/
def align (alignment : Nat) : Reading Unit := fun c =>
  (c.align alignment).map fun next => ((), next)

/-- Reads an integer. -/
def integer (type : IntegerType) : Reading Int :=
  if type.isSigned then fun c => c.readSigned type.size type.order
  else fun c =>
    (c.readUnsigned type.size type.order).map fun (value, next) => ((value : Int), next)

/-- The value that a path stands for, if it is of the needed kind, as seen from a value
without members. -/
def refer {α : Type} (around : Surroundings) (path : FieldPath) (need : FieldNeed)
    (select : Datum → Option α) : Reading α :=
  match (around.find? (.having []) path.tokens).bind select with
  | some a => pure a
  | none => throw (.scopeResolution path.text need)

/-- Decodes a member: moves to the alignment of its type, and decodes it there. -/
def member (alignment : Nat) (body : Reading Datum) : Reading Datum := do
  align alignment
  body

/-- Decodes `count` elements after those that are decoded. -/
def elements (decodeElement : List Datum → Reading Datum) :
    Nat → List Datum → Reading (List Datum)
  | 0, decoded => pure decoded
  | count + 1, decoded => do
    let datum ← decodeElement decoded
    elements decodeElement count (decoded ++ [datum])

mutual

/-- Decodes a value at a cursor that is aligned for it. -/
def decodeAt : Declaration → Surroundings → Reading Datum
  | .integer type, _ => do
    let offset ← position
    let value ← integer type
    return .integer type offset value
  | .float type, _ => do
    let offset ← position
    let precision := type.precision
    let value ← fun c => c.readFloat precision.exponentBits precision.mantissaBits type.order
    return .float type offset value
  | .enumeration type, _ => do
    let offset ← position
    let value ← integer type.container
    return .enumeration type offset value
  | .string encoding, _ => do
    let offset ← position
    let text ← Cursor.readString
    return .string encoding offset text
  | .struct minAlignment types, around => do
    let offset ← position
    let fields ← decodeFields types around []
    return .struct minAlignment types offset fields
  | .array length element, around => do
    let offset ← position
    let decodeElement (decoded : List Datum) :=
      member element.alignment
        (decodeAt element (around.within (Datum.indexed decoded) (toString decoded.length)))
    let values ← elements decodeElement length []
    return .array length element offset values
  | .sequence length element, around => do
    let offset ← position
    let count ← refer around length .unsignedInteger Datum.unsigned?
    let decodeElement (decoded : List Datum) :=
      member element.alignment
        (decodeAt element (around.within (Datum.indexed decoded) (toString decoded.length)))
    let values ← elements decodeElement count []
    return .sequence length element offset values
  | .variant tag options, around => do
    let offset ← position
    match ← refer around tag .enumeration Datum.enumLabel? with
    | none => throw (.variantSelection tag.text none)
    | some label =>
      let current ← decodeOption options around tag label
      return .variant tag options offset label current

/-- Decodes the fields of a struct in order, after those that are decoded. -/
def decodeFields : List (String × Declaration) → Surroundings → List (String × Datum) →
    Reading (List (String × Datum))
  | [], _, decoded => pure decoded
  | (name, type) :: rest, around, decoded => do
    let datum ← member type.alignment (decodeAt type (around.within decoded name))
    decodeFields rest around (decoded ++ [(name, datum)])

/-- Decodes the alternative of a variant that has the given label. -/
def decodeOption : List (String × Declaration) → Surroundings → FieldPath → String →
    Reading Datum
  | [], _, tag, label => throw (.variantSelection tag.text (some label))
  | (name, type) :: rest, around, tag, label =>
    if name = label then member type.alignment (decodeAt type (around.within [] label))
    else decodeOption rest around tag label

end

/-- Decodes a value as the whole content of a dynamic scope. -/
def decodeRoot (type : Declaration) (scope : DynamicScope) (others : DynamicScope → Content) :
    Reading Datum := do
  align type.alignment
  decodeAt type (.root scope others)

end Lexical

end CommonTrace
