import CommonTrace.Metadata

/-!
# Schemas

A schema describes a trace as a person writes it: layouts are partly left to defaults
and nothing is checked. Building the metadata it stands for fills in the defaults,
checks every invariant and reports the first that is broken, in a fixed order: the
packet header, then each stream with its sections and events, with repeated numbers
last. The types of a struct's fields come before its alignment and names, and each
alternative of a variant before the next.
-/
namespace CommonTrace.Schema

/-- The description of an integer type. -/
structure IntegerSpec where
  size : Nat
  isSigned : Bool := false
  order : Option ByteOrder := none
  base : Nat := 10
  alignment : Option Nat := none
  encoding : Encoding := .none
  deriving DecidableEq, Repr

/-- A label for the values from `first` to `last`, or for `first` alone. -/
structure MappingSpec where
  label : String
  first : Int
  last : Option Int := none
  deriving DecidableEq, Repr

/-- The description of a type. -/
inductive TypeSpec where
  | integer (spec : IntegerSpec)
  | float (exponentBits mantissaBits : Nat) (order : Option ByteOrder) (alignment : Option Nat)
  | enumeration (container : IntegerSpec) (mappings : List MappingSpec)
  | string (encoding : Encoding)
  | struct (minAlignment : Nat) (fields : List (String × TypeSpec))
  | array (length : Nat) (element : TypeSpec)
  | sequence (length : String) (element : TypeSpec)
  | variant (tag : String) (options : List (String × TypeSpec))

/-- The description of a struct. -/
structure StructSpec where
  minAlignment : Nat := 1
  fields : List (String × TypeSpec) := []

/-- The description of a class of events. -/
structure EventSpec where
  id : Nat := 0
  name : String
  logLevel : Option Int := none
  context : Option StructSpec := none
  fields : Option StructSpec := none

/-- The description of a class of streams. -/
structure StreamSpec where
  id : Nat := 0
  packetContext : Option StructSpec := none
  eventHeader : Option StructSpec := none
  eventContext : Option StructSpec := none
  events : List EventSpec := []

/-- The description of a trace. -/
structure TraceSpec where
  byteOrder : ByteOrder := default
  uuid : Option Uuid := none
  environment : Std.TreeMap String Constant := ∅
  packetHeader : Option StructSpec := none
  streams : List StreamSpec := []

/-- The integer type described, in the given byte order unless it names its own. -/
def IntegerSpec.type (spec : IntegerSpec) (order : ByteOrder) : Except Malformation IntegerType :=
  IntegerType.ofLayout spec.size spec.isSigned (spec.order.getD order) spec.base
    (spec.alignment.getD (Alignment.natural spec.size)) spec.encoding

/-- Adds a described mapping to an enumeration. -/
def MappingSpec.addTo (type : EnumType) (spec : MappingSpec) : Except Malformation EnumType :=
  type.addMapping spec.first (spec.last.getD spec.first) spec.label

namespace TypeSpec

mutual

/-- The type described. The byte order applies to scalars that do not name their own. -/
def declaration (order : ByteOrder) : TypeSpec → Except Malformation Declaration
  | integer spec => .integer <$> spec.type order
  | float exponentBits mantissaBits own alignment =>
    .float <$> FloatType.ofLayout exponentBits mantissaBits (own.getD order)
      (alignment.getD (Alignment.natural (exponentBits + mantissaBits)))
  | enumeration container mappings => do
    let container ← container.type order
    .enumeration <$> mappings.foldlM MappingSpec.addTo ⟨container, []⟩
  | string encoding => .ok (.string encoding)
  | struct minAlignment fields => do
    Declaration.ofFields minAlignment (← fieldDeclarations order fields)
  | array length element => .array length <$> element.declaration order
  | sequence length element => do
    let element ← element.declaration order
    return .sequence (← FieldPath.parse length) element
  | variant tag options => do
    let tag ← FieldPath.parse tag
    .variant tag <$> optionDeclarations order options []

/-- The types of described fields, with their names. -/
def fieldDeclarations (order : ByteOrder) :
    List (String × TypeSpec) → Except Malformation (List (String × Declaration))
  | [] => .ok []
  | (name, spec) :: rest => do
    let type ← spec.declaration order
    let types ← fieldDeclarations order rest
    return (name, type) :: types

/-- The alternatives described, added one by one to those given. -/
def optionDeclarations (order : ByteOrder) :
    List (String × TypeSpec) → List (String × Declaration) →
      Except Malformation (List (String × Declaration))
  | [], options => .ok options
  | (name, spec) :: rest, options => do
    let type ← spec.declaration order
    optionDeclarations order rest (← Declaration.addOption options (name, type))

end

end TypeSpec

/-- The section described, as the content of a dynamic scope. -/
def StructSpec.section (spec : StructSpec) (order : ByteOrder) (scope : DynamicScope) :
    Except Malformation StructType := do
  let type ← (TypeSpec.struct spec.minAlignment spec.fields).declaration order
  type.asSection scope

/-- The section described, if there is a description. -/
def sectionOf (spec : Option StructSpec) (order : ByteOrder) (scope : DynamicScope) :
    Except Malformation (Option StructType) :=
  spec.mapM (·.section order scope)

/-- The event class described. -/
def EventSpec.eventClass (spec : EventSpec) (order : ByteOrder) :
    Except Malformation EventClass := do
  let context ← sectionOf spec.context order .eventContext
  let fields ← sectionOf spec.fields order .eventFields
  return { id := spec.id, name := spec.name, logLevel := spec.logLevel, context, fields }

/-- The stream class described. -/
def StreamSpec.streamClass (spec : StreamSpec) (order : ByteOrder) :
    Except Malformation StreamClass := do
  let packetContext ← sectionOf spec.packetContext order .packetContext
  let eventHeader ← sectionOf spec.eventHeader order .eventHeader
  let eventContext ← sectionOf spec.eventContext order .streamEventContext
  spec.events.foldlM (fun stream event => do stream.addEvent (← event.eventClass order))
    { id := spec.id, packetContext, eventHeader, eventContext }

/-- The metadata described. -/
def TraceSpec.metadata (spec : TraceSpec) : Except Malformation Metadata := do
  let order := spec.byteOrder
  let packetHeader ← sectionOf spec.packetHeader order .packetHeader
  spec.streams.foldlM (fun metadata stream => do metadata.addStream (← stream.streamClass order))
    { byteOrder := order, uuid := spec.uuid, environment := spec.environment, packetHeader }

end CommonTrace.Schema
