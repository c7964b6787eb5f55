import CommonTrace.Declaration.Kind
import CommonTrace.Scope.Dynamic
import CommonTrace.Text.Quoted
import CommonTrace.Uuid

/-!
# Errors

Every way a trace can fail to be read, as a cause with the values that belong to it,
and the report of each cause.
-/
namespace CommonTrace

/-- The ways a description of types breaks an invariant. -/
inductive Malformation where
  | integerSize (size : Nat)
  | integerAlignment
  | integerBase (base : Nat)
  | floatLayout (exponentBits mantissaBits : Nat)
  | floatAlignment
  | invertedMapping (label : String) (low high : Int)
  | structAlignment
  | emptyFieldName
  | duplicateField (name : String)
  | fieldPath (path : String)
  | duplicateOption (label : String)
  | sectionKind (scope : DynamicScope) (kind : TypeKind)
  | duplicateEvent (stream event : Nat)
  | duplicateStream (stream : Nat)
  | integerWidth (bits : Nat)
  | floatWidth (bits : Nat)
  | emptyEvent (name : String) (stream : Nat)
  deriving DecidableEq, Repr

/-- The report of a broken invariant. -/
def Malformation.message : Malformation → String
  | integerSize size => s!"integer size must be between 1 and 64 bits, got {size}"
  | integerAlignment => "integer alignment must be positive"
  | integerBase base => s!"invalid integer base {base}"
  | floatLayout exponentBits mantissaBits =>
    s!"unsupported floating point layout: {exponentBits} exponent bits, "
      ++ s!"{mantissaBits} mantissa bits"
  | floatAlignment => "floating point alignment must be positive"
  | invertedMapping label low high =>
    s!"enumeration range for '{label}' is inverted ({low} > {high})"
  | structAlignment => "structure alignment must be positive"
  | emptyFieldName => "structure field names must not be empty"
  | duplicateField name => s!"structure already has a field named '{name}'"
  | fieldPath path => s!"invalid field path '{path}'"
  | duplicateOption label => s!"variant already has an alternative labeled '{label}'"
  | sectionKind scope kind =>
    s!"the {scope.path} scope must be a structure, found {kind.name}"
  | duplicateEvent stream event => s!"stream {stream} already declares an event with ID {event}"
  | duplicateStream stream => s!"the trace already declares a stream with ID {stream}"
  | integerWidth bits => s!"cannot read an integer of {bits} bits"
  | floatWidth bits => s!"cannot read a floating point value of {bits} bits"
  | emptyEvent name stream => s!"event '{name}' of stream {stream} occupies no bits"

/-- What a field path has to lead to. -/
inductive FieldNeed where
  | any
  | unsignedInteger
  | enumeration
  deriving DecidableEq, Repr

/-- The need in words. -/
def FieldNeed.name : FieldNeed → String
  | any => "field"
  | unsignedInteger => "unsigned integer"
  | enumeration => "enumeration"

/-- The ways a file cannot be read. -/
inductive FileProblem where
  | notFound
  | notDirectory
  | isDirectory
  | denied
  | notText
  | nameTooLong
  | zeroInName
  deriving DecidableEq, Repr

/-- The report of a file that cannot be read. -/
def FileProblem.message : FileProblem → String
  | notFound => "No such file or directory (os error 2)"
  | notDirectory => "Not a directory (os error 20)"
  | isDirectory => "Is a directory (os error 21)"
  | denied => "Permission denied (os error 13)"
  | notText => "stream did not contain valid UTF-8"
  | nameTooLong => "File name too long (os error 36)"
  | zeroInName => "file name contained an unexpected NUL byte"

/-- The ways a trace cannot be read. -/
inductive Error where
  | file (problem : FileProblem)
  | bufferOverrun (position requested available : Nat)
  | malformed (fault : Malformation)
  | scopeResolution (path : String) (need : FieldNeed)
  | variantSelection (tag : String) (label : Option String)
  | truncatedPacket (offset declared available : Nat)
  | inconsistentPacketSize (offset payloadStart contentSize packetSize : Nat)
  | inconsistentLostEvents (offset counter lostSoFar : Nat)
  | invalidTimestampRange (offset timestampBegin timestampEnd : Nat)
  | packetOrder (offset timestampBegin previousBegin : Nat)
  | badMagic (offset magic : Nat)
  | uuidMismatch (offset : Nat) (found expected : Uuid)
  | streamIdMismatch (offset found expected : Nat)
  | unknownEventId (id : Nat)
  | unknownStreamId (id : Nat)
  | noStreams
  | emptyStream (path : String)
  | document
  deriving DecidableEq

/-- A label that may be missing, as reports show it. -/
def shownLabel : Option String → String
  | none => "None"
  | some label => s!"Some({Text.quoted label})"

/-- The report of an error. What is wrong with a document depends on its reader and is
left open. -/
def Error.message : Error → String
  | file problem => s!"Encountered an IO error. {problem.message}"
  | bufferOverrun position requested available =>
    s!"Buffer overrun at bit {position}: requested {requested} bits but only {available} remain"
  | malformed fault => s!"Malformed declaration. {fault.message}"
  | scopeResolution path need =>
    s!"The field path '{path}' does not resolve to an already decoded {need.name} field"
  | variantSelection tag label =>
    s!"The variant tag '{tag}' has no alternative for label {shownLabel label}"
  | truncatedPacket offset declared available =>
    s!"Packet at byte offset {offset} declares {declared} bits but only {available} bits "
      ++ "remain in the file"
  | inconsistentPacketSize offset payloadStart contentSize packetSize =>
    s!"Packet at byte offset {offset} has inconsistent sizes: payload starts at bit "
      ++ s!"{payloadStart}, content is {contentSize} bits, packet is {packetSize} bits"
  | inconsistentLostEvents offset counter lostSoFar =>
    s!"Packet at byte offset {offset} reports a discarded event counter of {counter} "
      ++ s!"which is below the {lostSoFar} events already accounted for"
  | invalidTimestampRange offset timestampBegin timestampEnd =>
    s!"Packet at byte offset {offset} ends at timestamp {timestampEnd}, "
      ++ s!"before it begins at {timestampBegin}"
  | packetOrder offset timestampBegin previousBegin =>
    s!"Packet at byte offset {offset} begins at timestamp {timestampBegin}, "
      ++ s!"before the previous packet's begin timestamp {previousBegin}"
  | badMagic offset magic =>
    s!"Packet at byte offset {offset} has a bad magic number 0x"
      ++ String.ofList (Nat.toDigits 16 magic)
  | uuidMismatch offset found expected =>
    s!"Packet at byte offset {offset} carries trace UUID {found.text}, expected {expected.text}"
  | streamIdMismatch offset found expected =>
    s!"Packet at byte offset {offset} belongs to stream ID {found}, expected stream ID {expected}"
  | unknownEventId id =>
    s!"The event header references event ID {id} which is not declared for this stream"
  | unknownStreamId id =>
    s!"The packet header references stream ID {id} which is not declared in the metadata"
  | noStreams => "None of the provided inputs could be opened as a CTF stream"
  | emptyStream path => s!"The stream file '{path}' does not contain any packets"
  | document => "Encountered a TOML parsing error."

/-- A result of which something is known is not an error. -/
theorem exists_eq_ok {ε α β : Type} {result : Except ε α} {f : α → β} {b : β}
    (h : result.toOption.map f = some b) : ∃ a, result = .ok a ∧ f a = b := by
  cases result with
  | error e => cases h
  | ok a => exact ⟨a, rfl, Option.some.inj h⟩

end CommonTrace
