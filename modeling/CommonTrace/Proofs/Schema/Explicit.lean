import Mathlib.Data.List.Basic
import CommonTrace.Schema.Basic

/-!
# Schemas with nothing left to defaults

What a schema has to satisfy to describe a trace, and what it describes, are said here without
building anything. A schema is made explicit by writing out the byte order and the alignment of
every scalar and the end of every range, and by listing streams and events in the order of their
numbers.
Metadata can be written down as such a schema, and different metadata are written down differently
(`Metadata.toSpec_injective`).
-/
namespace CommonTrace.Schema

/-- An integer has from 1 to 64 bits and a base in which it can be shown, and is not aligned to
nothing. -/
structure IntegerSpec.Sound (spec : IntegerSpec) : Prop where
  size : 1 ≤ spec.size ∧ spec.size ≤ 64
  base : spec.base ∈ [2, 8, 10, 16]
  alignment : spec.alignment ≠ some 0

/-- A range does not end before it begins. -/
def MappingSpec.Sound (spec : MappingSpec) : Prop := spec.first ≤ spec.last.getD spec.first

/-- Whether a text leads to a field: it is not empty, and no name along it is. -/
def IsPath (text : String) : Prop := text ≠ "" ∧ "" ∉ Text.splitDots text

namespace TypeSpec

mutual

/-- Whether a description satisfies all that is asked of types, at any depth. -/
def Sound : TypeSpec → Prop
  | integer spec => spec.Sound
  | float exponentBits mantissaBits _ alignment =>
    ((exponentBits, mantissaBits) = (8, 24) ∨ (exponentBits, mantissaBits) = (11, 53)) ∧
      alignment ≠ some 0
  | enumeration container mappings => container.Sound ∧ ∀ mapping ∈ mappings, mapping.Sound
  | string _ => True
  | struct minAlignment fields =>
    1 ≤ minAlignment ∧ "" ∉ fields.map (·.1) ∧ (fields.map (·.1)).Nodup ∧ AllSound fields
  | array _ element => element.Sound
  | sequence length element => IsPath length ∧ element.Sound
  | variant tag options => IsPath tag ∧ (options.map (·.1)).Nodup ∧ AllSound options

/-- Whether all of some named descriptions are sound. -/
def AllSound : List (String × TypeSpec) → Prop
  | [] => True
  | (_, spec) :: rest => spec.Sound ∧ AllSound rest

end

end TypeSpec

/-- Whether the description of a struct is sound. -/
def StructSpec.Sound (spec : StructSpec) : Prop :=
  (TypeSpec.struct spec.minAlignment spec.fields).Sound

/-- Whether a section, if it is described, is sound. -/
def SectionSound (spec : Option StructSpec) : Prop := ∀ s, spec = some s → s.Sound

structure EventSpec.Sound (spec : EventSpec) : Prop where
  context : SectionSound spec.context
  fields : SectionSound spec.fields

structure StreamSpec.Sound (spec : StreamSpec) : Prop where
  packetContext : SectionSound spec.packetContext
  eventHeader : SectionSound spec.eventHeader
  eventContext : SectionSound spec.eventContext
  events : ∀ event ∈ spec.events, event.Sound
  distinct : (spec.events.map (·.id)).Nodup

/-- Whether a schema describes a trace: all of its sections are sound, no two streams have the same
number, and neither have two events of a stream. -/
structure TraceSpec.Sound (spec : TraceSpec) : Prop where
  packetHeader : SectionSound spec.packetHeader
  streams : ∀ stream ∈ spec.streams, stream.Sound
  distinct : (spec.streams.map (·.id)).Nodup

/-- The alignment of a scalar that is not given one. -/
def defaultAlignment (size : Nat) : Nat := if 8 ∣ size then 8 else 1

/-- An integer with its own byte order, or else the given one, and its own alignment, or else that
of its size. -/
def IntegerSpec.explicit (order : ByteOrder) (spec : IntegerSpec) : IntegerSpec :=
  { spec with
    order := some (spec.order.getD order)
    alignment := some (spec.alignment.getD (defaultAlignment spec.size)) }

/-- A range with its end. -/
def MappingSpec.explicit (spec : MappingSpec) : MappingSpec :=
  { spec with last := some (spec.last.getD spec.first) }

namespace TypeSpec

mutual

/-- A type in which every scalar has a byte order and an alignment, and every range has an end. -/
def explicit (order : ByteOrder) : TypeSpec → TypeSpec
  | integer spec => integer (spec.explicit order)
  | float exponentBits mantissaBits own alignment =>
    float exponentBits mantissaBits (some (own.getD order))
      (some (alignment.getD (defaultAlignment (exponentBits + mantissaBits))))
  | enumeration container mappings =>
    enumeration (container.explicit order) (mappings.map MappingSpec.explicit)
  | string encoding => string encoding
  | struct minAlignment fields => struct minAlignment (allExplicit order fields)
  | array length element => array length (element.explicit order)
  | sequence length element => sequence length (element.explicit order)
  | variant tag options => variant tag (allExplicit order options)

/-- Named types, each made explicit. -/
def allExplicit (order : ByteOrder) : List (String × TypeSpec) → List (String × TypeSpec)
  | [] => []
  | (name, spec) :: rest => (name, spec.explicit order) :: allExplicit order rest

end

example : (float 8 24 none none).explicit .big = float 8 24 (some .big) (some 8) := rfl

theorem names_allExplicit (order : ByteOrder) (specs : List (String × TypeSpec)) :
    (allExplicit order specs).map (·.1) = specs.map (·.1) := by
  induction specs with
  | nil => rfl
  | cons spec specs ih => rw [allExplicit, List.map_cons, List.map_cons, ih]

end TypeSpec

def StructSpec.explicit (order : ByteOrder) (spec : StructSpec) : StructSpec :=
  { spec with fields := TypeSpec.allExplicit order spec.fields }

def EventSpec.explicit (order : ByteOrder) (spec : EventSpec) : EventSpec :=
  { spec with
    context := spec.context.map (·.explicit order)
    fields := spec.fields.map (·.explicit order) }

/-- A class of streams with explicit sections, and its events by their numbers. -/
def StreamSpec.explicit (order : ByteOrder) (spec : StreamSpec) : StreamSpec :=
  { spec with
    packetContext := spec.packetContext.map (·.explicit order)
    eventHeader := spec.eventHeader.map (·.explicit order)
    eventContext := spec.eventContext.map (·.explicit order)
    events := (spec.events.map (·.explicit order)).mergeSort (·.id ≤ ·.id) }

/-- A schema in which nothing is left to defaults, with its streams by their numbers. -/
def TraceSpec.explicit (spec : TraceSpec) : TraceSpec :=
  { spec with
    packetHeader := spec.packetHeader.map (·.explicit spec.byteOrder)
    streams := (spec.streams.map (·.explicit spec.byteOrder)).mergeSort (·.id ≤ ·.id) }

end CommonTrace.Schema

namespace CommonTrace

open Schema

/-- An integer type written down. -/
def IntegerType.toSpec (type : IntegerType) : IntegerSpec :=
  { size := type.size, isSigned := type.isSigned, order := some type.order,
    base := type.radix.base, alignment := some type.alignment.bits, encoding := type.encoding }

/-- A range written down. -/
def Mapping.toSpec (mapping : Mapping) : MappingSpec :=
  { label := mapping.label, first := mapping.low, last := some mapping.high }

namespace Declaration

mutual

/-- A type written down. -/
def toSpec : Declaration → TypeSpec
  | integer type => .integer type.toSpec
  | float type =>
    .float type.precision.exponentBits type.precision.mantissaBits (some type.order)
      (some type.alignment.bits)
  | enumeration type => .enumeration type.container.toSpec (type.mappings.map Mapping.toSpec)
  | string encoding => .string encoding
  | struct minAlignment fields => .struct minAlignment.bits (allToSpec fields)
  | array length element => .array length element.toSpec
  | sequence length element => .sequence length.text element.toSpec
  | variant tag options => .variant tag.text (allToSpec options)

/-- Named types written down. -/
def allToSpec : List (String × Declaration) → List (String × TypeSpec)
  | [] => []
  | (name, type) :: rest => (name, type.toSpec) :: allToSpec rest

end

theorem names_allToSpec (types : List (String × Declaration)) :
    (allToSpec types).map (·.1) = types.map (·.1) := by
  induction types with
  | nil => rfl
  | cons type types ih => rw [allToSpec, List.map_cons, List.map_cons, ih]

theorem allToSpec_append (types more : List (String × Declaration)) :
    allToSpec (types ++ more) = allToSpec types ++ allToSpec more := by
  induction types with
  | nil => rfl
  | cons type types ih => rw [List.cons_append, allToSpec, allToSpec, ih, List.cons_append]

end Declaration

def StructType.toSpec (type : StructType) : StructSpec :=
  { minAlignment := type.minAlignment.bits, fields := Declaration.allToSpec type.fields }

def EventClass.toSpec (event : EventClass) : EventSpec :=
  { id := event.id, name := event.name, logLevel := event.logLevel,
    context := event.context.map StructType.toSpec, fields := event.fields.map StructType.toSpec }

def StreamClass.toSpec (stream : StreamClass) : StreamSpec :=
  { id := stream.id, packetContext := stream.packetContext.map StructType.toSpec,
    eventHeader := stream.eventHeader.map StructType.toSpec,
    eventContext := stream.eventContext.map StructType.toSpec,
    events := stream.events.map EventClass.toSpec }

/-- Metadata written down as a schema. -/
def Metadata.toSpec (m : Metadata) : TraceSpec :=
  { byteOrder := m.byteOrder, uuid := m.uuid, environment := m.environment,
    packetHeader := m.packetHeader.map StructType.toSpec,
    streams := m.streams.map StreamClass.toSpec }

theorem Alignment.bits_injective : Function.Injective Alignment.bits := fun a b h => by
  cases a
  cases b
  cases h
  rfl

theorem FieldPath.text_injective : Function.Injective FieldPath.text := fun a b h => by
  cases a
  cases b
  cases h
  rfl

theorem Radix.base_injective : Function.Injective Radix.base := fun a b => by
  cases a <;> cases b <;> decide

theorem Precision.exponentBits_injective : Function.Injective Precision.exponentBits :=
  fun a b => by cases a <;> cases b <;> decide

theorem IntegerType.toSpec_injective : Function.Injective IntegerType.toSpec := fun a b h => by
  obtain ⟨size, _, _, isSigned, order, radix, alignment, encoding⟩ := a
  obtain ⟨size', _, _, isSigned', order', radix', alignment', encoding'⟩ := b
  simp only [toSpec, IntegerSpec.mk.injEq, Option.some.injEq] at h
  obtain ⟨rfl, rfl, rfl, hradix, halignment, rfl⟩ := h
  rw [Radix.base_injective hradix, Alignment.bits_injective halignment]

theorem Mapping.toSpec_injective : Function.Injective Mapping.toSpec := fun a b h => by
  cases a
  cases b
  cases h
  rfl

namespace Declaration

mutual

theorem eq_of_toSpec : (a b : Declaration) → a.toSpec = b.toSpec → a = b
  | integer type, b, h => by
    cases b with
    | integer type' =>
      rw [IntegerType.toSpec_injective (TypeSpec.integer.inj h)]
    | _ => cases h
  | float type, b, h => by
    cases b with
    | float type' =>
      obtain ⟨precision, order, alignment⟩ := type
      obtain ⟨precision', order', alignment'⟩ := type'
      obtain ⟨hexponent, -, horder, halignment⟩ := TypeSpec.float.inj h
      obtain rfl := Precision.exponentBits_injective hexponent
      obtain rfl := Option.some.inj horder
      obtain rfl := Alignment.bits_injective (Option.some.inj halignment)
      rfl
    | _ => cases h
  | enumeration type, b, h => by
    cases b with
    | enumeration type' =>
      obtain ⟨container, mappings⟩ := type
      obtain ⟨container', mappings'⟩ := type'
      obtain ⟨hcontainer, hmappings⟩ := TypeSpec.enumeration.inj h
      obtain rfl := IntegerType.toSpec_injective hcontainer
      obtain rfl := Mapping.toSpec_injective.list_map hmappings
      rfl
    | _ => cases h
  | string encoding, b, h => by
    cases b with
    | string encoding' => rw [TypeSpec.string.inj h]
    | _ => cases h
  | struct minAlignment fields, b, h => by
    cases b with
    | struct minAlignment' fields' =>
      obtain ⟨hminAlignment, hfields⟩ := TypeSpec.struct.inj h
      rw [Alignment.bits_injective hminAlignment, eq_of_allToSpec fields fields' hfields]
    | _ => cases h
  | array length element, b, h => by
    cases b with
    | array length' element' =>
      obtain ⟨hlength, helement⟩ := TypeSpec.array.inj h
      rw [hlength, eq_of_toSpec element element' helement]
    | _ => cases h
  | sequence length element, b, h => by
    cases b with
    | sequence length' element' =>
      obtain ⟨hlength, helement⟩ := TypeSpec.sequence.inj h
      rw [FieldPath.text_injective hlength, eq_of_toSpec element element' helement]
    | _ => cases h
  | variant tag options, b, h => by
    cases b with
    | variant tag' options' =>
      obtain ⟨htag, hoptions⟩ := TypeSpec.variant.inj h
      rw [FieldPath.text_injective htag, eq_of_allToSpec options options' hoptions]
    | _ => cases h

theorem eq_of_allToSpec : (types types' : List (String × Declaration)) →
    allToSpec types = allToSpec types' → types = types'
  | [], [], _ => rfl
  | [], (_, _) :: _, h => by cases h
  | (_, _) :: _, [], h => by cases h
  | (name, type) :: types, (name', type') :: types', h => by
    obtain ⟨hfirst, hrest⟩ := List.cons.inj h
    obtain ⟨hname, htype⟩ := Prod.mk.inj hfirst
    rw [hname, eq_of_toSpec type type' htype, eq_of_allToSpec types types' hrest]

end

end Declaration

theorem StructType.toSpec_injective : Function.Injective StructType.toSpec := fun a b h => by
  obtain ⟨minAlignment, fields⟩ := a
  obtain ⟨minAlignment', fields'⟩ := b
  simp only [toSpec, StructSpec.mk.injEq] at h
  obtain ⟨hminAlignment, hfields⟩ := h
  rw [Alignment.bits_injective hminAlignment, Declaration.eq_of_allToSpec fields fields' hfields]

/-- Sections are written down differently, also where there may be none. -/
theorem StructType.map_toSpec_injective :
    Function.Injective (Option.map StructType.toSpec) :=
  Option.map_injective StructType.toSpec_injective

theorem EventClass.toSpec_injective : Function.Injective EventClass.toSpec := fun a b h => by
  obtain ⟨id, name, logLevel, context, fields⟩ := a
  obtain ⟨id', name', logLevel', context', fields'⟩ := b
  simp only [toSpec, EventSpec.mk.injEq] at h
  obtain ⟨rfl, rfl, rfl, hcontext, hfields⟩ := h
  rw [StructType.map_toSpec_injective hcontext,
    StructType.map_toSpec_injective hfields]

theorem StreamClass.toSpec_injective : Function.Injective StreamClass.toSpec := fun a b h => by
  obtain ⟨id, packetContext, eventHeader, eventContext, events⟩ := a
  obtain ⟨id', packetContext', eventHeader', eventContext', events'⟩ := b
  simp only [toSpec, StreamSpec.mk.injEq] at h
  obtain ⟨rfl, hpacketContext, heventHeader, heventContext, hevents⟩ := h
  rw [StructType.map_toSpec_injective hpacketContext,
    StructType.map_toSpec_injective heventHeader, StructType.map_toSpec_injective heventContext,
    EventClass.toSpec_injective.list_map hevents]

theorem Metadata.toSpec_injective : Function.Injective Metadata.toSpec := fun a b h => by
  obtain ⟨byteOrder, uuid, environment, packetHeader, streams⟩ := a
  obtain ⟨byteOrder', uuid', environment', packetHeader', streams'⟩ := b
  simp only [toSpec, TraceSpec.mk.injEq] at h
  obtain ⟨rfl, rfl, rfl, hpacketHeader, hstreams⟩ := h
  rw [StructType.map_toSpec_injective hpacketHeader,
    StreamClass.toSpec_injective.list_map hstreams]

end CommonTrace
