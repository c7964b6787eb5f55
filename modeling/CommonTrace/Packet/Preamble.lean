import CommonTrace.Decoding
import CommonTrace.Metadata

/-!
# Packet preambles

A packet starts with the packet header, which is the same for all streams, and goes on
with the packet context of its stream. The header may hold a magic number, the
identifier of the trace and the number of the stream, by fields of these names.
-/
namespace CommonTrace

/-- What precedes the events of a packet. -/
structure Preamble where
  streamClass : StreamClass
  context : Option Value
  payloadStart : Nat

namespace Preamble

/-- The trace identifier held by a header field: an array of sixteen bytes. -/
def uuid? (header : Value) : Option Uuid := do
  let elements ← (← header.field? "uuid").elements?
  let bytes ← elements.mapM fun element =>
    element.unsigned?.bind fun n => if n < 256 then some (UInt8.ofNat n) else none
  Uuid.ofBytes? bytes

/-- Checks the number that starts a packet, if the header has it. -/
def checkMagic (offset : Nat) (header : Value) : Except Error Unit :=
  match (header.field? "magic").bind Value.unsigned? with
  | some magic => if magic = Metadata.magic then .ok () else .error (.badMagic offset magic)
  | none => .ok ()

/-- Checks the identifier of the trace, if the header and the metadata have it. -/
def checkUuid (metadata : Metadata) (offset : Nat) (header : Value) : Except Error Unit :=
  match uuid? header, metadata.uuid with
  | some found, some expected =>
    if found = expected then .ok () else .error (.uuidMismatch offset found expected)
  | _, _ => .ok ()

/-- Checks a packet header and yields the number of the stream it names. -/
def checkHeader (metadata : Metadata) (offset : Nat) (header : Value) :
    Except Error (Option Nat) := do
  checkMagic offset header
  checkUuid metadata offset header
  return (header.field? "stream_id").bind Value.unsigned?

/-- The class of the stream with a given number, or of packets that name none. -/
def classOf (metadata : Metadata) : Option Nat → Except Error StreamClass
  | some id => metadata.stream id
  | none => metadata.singleStream

/-- A result as a step that leaves the state as it is. -/
def lift {σ α : Type} : Except Error α → EStateM Error σ α
  | .ok a => pure a
  | .error e => throw e

/-- Decodes a section, if it has a type. -/
def section? (type : Option StructType) (scope : DynamicScope) : Decode (Option Value) :=
  match type with
  | some type => some <$> type.declaration.decodeRoot scope
  | none => pure none

/-- Decodes what follows the header, which names a stream or does not. -/
def decodeContext (metadata : Metadata) (id : Option Nat) : Decode Preamble := do
  let streamClass ← lift (classOf metadata id)
  let context ← section? streamClass.packetContext .packetContext
  let payloadStart ← Decoding.position
  return { streamClass, context, payloadStart }

/-- Decodes the preamble of the packet at an offset of its file. -/
def decode (metadata : Metadata) (offset : Nat) : Decode Preamble := do
  match ← section? metadata.packetHeader .packetHeader with
  | some header =>
    let id ← lift (checkHeader metadata offset header)
    decodeContext metadata id
  | none => decodeContext metadata none

/-- The fields of the packet context. -/
def fields (p : Preamble) : List (String × Value) :=
  (p.context.bind Value.fields?).getD []

end Preamble

end CommonTrace
