import CommonTrace.Document.Record
import CommonTrace.Schema.Basic
import CommonTrace.Toml.Document

/-!
# Schemas in documents

A schema is read from a document whose entries name its parts. A type names its kind
and gives the entries of that kind; a field or alternative is a type that also has a
name. Reading is by recursion on the document: every part is read as each of the
things it may be, and what contains it takes the reading that it needs. Types and
their parts are read alike in every form of document; what contains them is read as
freely as the form allows.
-/
namespace CommonTrace.Schema

/-- The names of the kinds of types. -/
def kindNames : List (String × TypeKind) :=
  [("integer", .integer), ("float", .float), ("enum", .enumeration), ("string", .string),
    ("struct", .struct), ("array", .array), ("sequence", .sequence), ("variant", .variant)]

/-- The kind with a given name. -/
def kindOfName? (name : String) : Option TypeKind := kindNames.lookup name

/-- The kind of a type that is part of another, which may also be given by its place. -/
def innerKind? : Document → Option TypeKind
  | .text name => kindOfName? name
  | .natural place => kindNames[place]?.map (·.2)
  | _ => none

/-- Reads an integer type. -/
def IntegerSpec.ofRecord? (r : Record Document) : Option IntegerSpec := do
  let size ← r.required 0 "size" (·.unsigned? 32)
  let isSigned ← r.withDefault 1 "signed" false Document.boolean?
  let order ← r.optional 2 "byte-order" (·.word? ByteOrder.parse)
  let base ← r.withDefault 3 "base" 10 (·.unsigned? 32)
  let alignment ← r.optional 4 "align" (·.unsigned? 64)
  let encoding ← r.withDefault 5 "encoding" .none (·.word? Encoding.parse)
  return { size, isSigned, order, base, alignment, encoding }

/-- Reads a mapping of an enumeration. -/
def MappingSpec.ofDocument? (d : Document) : Option MappingSpec := do
  let r ← d.record? 3 false
  let label ← r.required 0 "label" Document.text?
  let first ← r.required 1 "value" Document.signed?
  let last ← r.optional 2 "end" Document.signed?
  return { label, first, last }

/-- A part of a document read as a type, as a named type and as a list of named types. -/
structure Reading where
  document : Document
  type : Option TypeSpec := none
  named : Option (String × TypeSpec) := none
  types : Option (List (String × TypeSpec)) := none

/-- How many entries a type of some kind has. -/
def kindSize : TypeKind → Nat
  | .integer => 6
  | .float => 4
  | .string => 1
  | _ => 2

/-- Reads the type of a kind. -/
def TypeSpec.ofRecord? (r : Record Reading) : TypeKind → Option TypeSpec
  | .integer => .integer <$> IntegerSpec.ofRecord? (r.map (·.document))
  | .float => do
    let r := r.map (·.document)
    let exponentBits ← r.required 0 "exponent-bits" (·.unsigned? 32)
    let mantissaBits ← r.required 1 "mantissa-bits" (·.unsigned? 32)
    let order ← r.optional 2 "byte-order" (·.word? ByteOrder.parse)
    let alignment ← r.optional 3 "align" (·.unsigned? 64)
    return .float exponentBits mantissaBits order alignment
  | .enumeration => do
    let r := r.map (·.document)
    let container ← r.required 0 "container" fun d =>
      (d.record? 6 false).bind IntegerSpec.ofRecord?
    let mappings ← r.withDefault 1 "mappings" [] (·.listOf? MappingSpec.ofDocument?)
    return .enumeration container mappings
  | .string => do
    let encoding ← r.withDefault 0 "encoding" .utf8 (·.document.word? Encoding.parse)
    return .string encoding
  | .struct => do
    let minAlignment ← r.withDefault 0 "min-align" 1 (·.document.unsigned? 64)
    let fields ← r.withDefault 1 "fields" [] (·.types)
    return .struct minAlignment fields
  | .array => do
    let length ← r.required 0 "length" (·.document.unsigned? 64)
    let element ← r.required 1 "element" (·.type)
    return .array length element
  | .sequence => do
    let length ← r.required 0 "length" (·.document.text?)
    let element ← r.required 1 "element" (·.type)
    return .sequence length element
  | .variant => do
    let tag ← r.required 0 "tag" (·.document.text?)
    let options ← r.withDefault 1 "options" [] (·.types)
    return .variant tag options

/-- Reads a type from the entries of a table. -/
def TypeSpec.ofTable? (kind? : Document → Option TypeKind) (entries : List (String × Reading)) :
    Option TypeSpec := do
  let r := Record.ofTable entries
  let kind ← r.required 0 "type" (kind? ·.document)
  TypeSpec.ofRecord? r kind

/-- Reads a type from the items of a list, the first of which names the kind. -/
def TypeSpec.ofList? (kind? : Document → Option TypeKind) : List Reading → Option TypeSpec
  | [] => none
  | tag :: rest => do
    let kind ← kind? tag.document
    let r ← Record.ofList? (kindSize kind) false rest
    TypeSpec.ofRecord? r kind

/-- The readings of a table, given those of its entries. -/
def Reading.ofTable (d : Document) (entries : List (String × Reading)) : Reading :=
  let type := TypeSpec.ofTable? innerKind? entries
  let name := (Record.ofTable entries).required 0 "name" (·.document.text?)
  { document := d, type, named := name.bind fun name => type.map fun type => (name, type) }

/-- The readings of a list, given those of its items. -/
def Reading.ofList (d : Document) (items : List Reading) : Reading :=
  { document := d, type := TypeSpec.ofList? innerKind? items, types := items.mapM (·.named) }

mutual

/-- The readings of a part of a document. -/
def reading : Document → Reading
  | .table entries => .ofTable (.table entries) (entryReadings entries)
  | .list items => .ofList (.list items) (itemReadings items)
  | d => { document := d }

/-- The readings of the entries of a table. -/
def entryReadings : List (String × Document) → List (String × Reading)
  | [] => []
  | (name, d) :: rest => (name, reading d) :: entryReadings rest

/-- The readings of the items of a list. -/
def itemReadings : List Document → List Reading
  | [] => []
  | d :: rest => reading d :: itemReadings rest

end

/-- Reads a type that stands alone, whose kind is given by name. -/
def TypeSpec.ofDocument? : Document → Option TypeSpec
  | .table entries => TypeSpec.ofTable? (·.text?.bind kindOfName?) (entryReadings entries)
  | .list items => TypeSpec.ofList? (·.text?.bind kindOfName?) (itemReadings items)
  | _ => none

/-- Reads a struct. -/
def StructSpec.ofDocument? (form : DocumentForm) (d : Document) : Option StructSpec := do
  let r ← d.record? 2 form.allowsSurplus
  let minAlignment ← r.withDefault 0 "min-align" 1 (·.unsigned? 64)
  let fields ← r.withDefault 1 "fields" [] fun d => (reading d).types
  return { minAlignment, fields }

/-- Reads a class of events. -/
def EventSpec.ofDocument? (form : DocumentForm) (d : Document) : Option EventSpec := do
  let r ← d.record? 5 form.allowsSurplus
  let id ← r.withDefault 0 "id" 0 (·.unsigned? 64)
  let name ← r.required 1 "name" Document.text?
  let logLevel ← r.optional 2 "log-level" Document.signed?
  let context ← r.optional 3 "context" (StructSpec.ofDocument? form)
  let fields ← r.optional 4 "fields" (StructSpec.ofDocument? form)
  return { id, name, logLevel, context, fields }

/-- Reads a class of streams. -/
def StreamSpec.ofDocument? (form : DocumentForm) (d : Document) : Option StreamSpec := do
  let r ← d.record? 5 form.allowsSurplus
  let id ← r.withDefault 0 "id" 0 (·.unsigned? 64)
  let packetContext ← r.optional 1 "packet-context" (StructSpec.ofDocument? form)
  let eventHeader ← r.optional 2 "event-header" (StructSpec.ofDocument? form)
  let eventContext ← r.optional 3 "event-context" (StructSpec.ofDocument? form)
  let events ← r.withDefault 4 "events" [] (·.listOf? (EventSpec.ofDocument? form))
  return { id, packetContext, eventHeader, eventContext, events }

/-- Reads a constant of the environment. -/
def constantOf? (d : Document) : Option Constant :=
  match d with
  | .text value => some (.text value)
  | d => d.signed?.map .integer

/-- Reads the constants of the environment. -/
def environmentOf? (d : Document) : Option (Std.TreeMap String Constant) := do
  (← d.entries?).foldlM (fun constants (name, d) => (constantOf? d).map (constants.insert name)) ∅

/-- Reads the identifier of a trace, which is written as a text, or else as its bytes. -/
def uuidOf? (form : DocumentForm) : Document → Option Uuid
  | .text value => Uuid.parse? value
  | d => if form.listsBytes then (d.bytes? 16).bind Uuid.ofBytes? else none

/-- Reads a schema. -/
def TraceSpec.ofDocument? (form : DocumentForm) (d : Document) : Option TraceSpec := do
  let r ← d.record? 5 form.allowsSurplus
  let byteOrder ← r.withDefault 0 "byte-order" default (·.word? ByteOrder.parse)
  let uuid ← r.optional 1 "uuid" (uuidOf? form)
  let environment ← r.withDefault 2 "env" ∅ environmentOf?
  let packetHeader ← r.optional 3 "packet-header" (StructSpec.ofDocument? form)
  let streams ← r.withDefault 4 "streams" [] (·.listOf? (StreamSpec.ofDocument? form))
  return { byteOrder, uuid, environment, packetHeader, streams }

/-- The metadata described by a document. -/
def metadataOf (form : DocumentForm) (d : Document) : Except Error Metadata :=
  match TraceSpec.ofDocument? form d with
  | none => .error .document
  | some spec => spec.metadata.mapError .malformed

/-- The metadata described by a text. -/
def metadataOfText (text : String) : Except Error Metadata :=
  match Toml.parse? text with
  | none => .error .document
  | some d => metadataOf .configuration d

end CommonTrace.Schema
