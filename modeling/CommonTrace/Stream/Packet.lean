import CommonTrace.Event.Basic
import CommonTrace.Stream.File

/-!
# Reading a packet

An open packet remembers the point that the tree of scopes had reached after its
preamble, and the tree is rewound to it before every event. What a packet carries
from one event to the next is where it starts and the time from which its own is
reconstructed.
-/
namespace CommonTrace

/-- The time of which a field of `bits` bits holds the low part: the first one not before
`last`, as long as it fits into 64 bits. -/
def reconstructTimestamp (last value bits : Nat) : Nat :=
  if 64 ≤ bits then value
  else
    let t := last - last % Nat.pow 2 bits + value % Nat.pow 2 bits
    if t < last then (t + Nat.pow 2 bits) % Nat.pow 2 64 else t

/-- A packet whose events are being read: its place and entry in the index, its bytes,
the point of the tree of scopes after its preamble, its context, where the next event
starts and the time of the one before it. -/
structure OpenPacket where
  place : Nat
  entry : PacketEntry
  bytes : ByteArray
  point : ScopeCheckpoint
  context : Option Value
  position : Nat
  timestamp : Nat

/-- The cursor at the start of a packet, of whose bytes only the content may be read. -/
def PacketEntry.cursor (entry : PacketEntry) (bytes : ByteArray) : Cursor :=
  (Cursor.ofBytes bytes).withLimit entry.contentSize

/-- The packet whose preamble has been decoded, before its first event. -/
def Preamble.opened (preamble : Preamble) (place : Nat) (entry : PacketEntry) (bytes : ByteArray)
    (point : ScopeCheckpoint) : OpenPacket :=
  { place, entry, bytes, point, context := preamble.context, position := preamble.payloadStart,
    timestamp := entry.timestampBegin }

namespace OpenPacket

/-- How much of the packet is left to read, in bits, and one for the packet itself. -/
def bitsLeft (p : OpenPacket) : Nat := p.entry.contentSize - p.position + 1

/-- The number of an event's class and the field that holds its time. Those of the struct
selected by a variant `v` of the header come before those of the header itself. -/
def headerFields (header : Value) : Option Nat × Option (IntegerType × Int) :=
  let id? (v : Value) := (v.field? "id").bind Value.unsigned?
  let time? (v : Value) : Option (IntegerType × Int) :=
    match v.field? "timestamp" with
    | some (.integer type _ value) => some (type, value)
    | _ => none
  match header.field? "v" with
  | some (.variant _ _ _ _ _ current) =>
    ((id? current).or (id? header), (time? current).or (time? header))
  | _ => (id? header, time? header)

/-- The event class with a given number, or the only class. -/
def classOf (streamClass : StreamClass) (id : Option Nat) : Except Error EventClass :=
  let found :=
    match id with
    | some id => streamClass.event? id
    | none => streamClass.singleEvent?
  match found with
  | some eventClass => .ok eventClass
  | none => .error (.unknownEventId (id.getD 0))

/-- Decodes the parts of an event in order. -/
def decodeParts (streamClass : StreamClass) (p : OpenPacket) : Decode Event := do
  let header ← Preamble.section? streamClass.eventHeader .eventHeader
  let (id, time) := (header.map headerFields).getD (none, none)
  let eventClass ← Preamble.lift (classOf streamClass id)
  let timestamp :=
    match time with
    | some (type, value) => reconstructTimestamp p.timestamp (Value.pattern value) type.size
    | none => p.timestamp
  let streamContext ← Preamble.section? streamClass.eventContext .streamEventContext
  let context ← Preamble.section? eventClass.context .eventContext
  let fields ← Preamble.section? eventClass.fields .eventFields
  return { streamId := streamClass.id, timestamp, packet := p.place, target := p.entry.target,
           packetContext := p.context,
           body := .decoded eventClass header streamContext context fields }

/-- Decodes an event of a packet, which has to take at least one bit. -/
def decodeEvent (streamClass : StreamClass) (p : OpenPacket) : Decode Event :=
  Decoding.consuming (fun event => .malformed (.emptyEvent event.name event.streamId))
    (decodeParts streamClass p)

/-- The cursor at the next event, if any content is left. -/
def nextEvent (p : OpenPacket) : Except Error (Option Cursor) :=
  match (p.entry.cursor p.bytes).seek p.position with
  | .ok cursor => .ok (if cursor.remaining = 0 then none else some cursor)
  | .error e => .error e

theorem nextEvent_eq_some {p : OpenPacket} {c : Cursor} (h : p.nextEvent = .ok (some c)) :
    c.position = p.position ∧ p.position < p.entry.contentSize := by
  unfold nextEvent Cursor.seek at h
  split at h
  next cursor hc =>
    split at hc
    next hle =>
      cases hc
      split at h
      · cases h
      next hr =>
        cases h
        have hmin := Nat.min_le_left p.entry.contentSize (8 * (Cursor.ofBytes p.bytes).bytes.size)
        simp only [Cursor.remaining, Cursor.moveTo, PacketEntry.cursor, Cursor.withLimit]
          at hr hle ⊢
        exact ⟨trivial, by omega⟩
    · cases hc
  · cases h

/-- The record of the events lost before a packet, if there are any. They were lost since
the end of the packet before it, if that is known. -/
def lostRecord? (order : ByteOrder) (streamId : Nat) (endBefore : Option Nat) (p : OpenPacket) :
    Option Event :=
  if p.entry.lostEvents = 0 then none
  else
    let since := (endBefore.filter (· != PacketEntry.openEnd)).getD p.entry.timestampBegin
    some { streamId, timestamp := p.entry.timestampBegin, packet := p.place,
           target := p.entry.target, packetContext := p.context,
           body := .lost order p.entry.lostEvents (p.entry.timestampBegin - since) }

/-- The packet after an event. -/
def after (p : OpenPacket) (event : Event) (position : Nat) : OpenPacket :=
  { p with position, timestamp := event.timestamp }

end OpenPacket

namespace StreamFile

/-- The bytes of a packet. -/
def bytesOf (f : StreamFile) (entry : PacketEntry) : ByteArray :=
  f.bytes.extract entry.offset entry.nextOffset

/-- Opens a packet of a file: rewinds the tree of scopes to `base` and decodes the
packet's preamble anew, within its content. The tree is the one that was reached, also
where that failed. -/
def openPacket (f : StreamFile) (base : ScopeCheckpoint) (scopes : ScopeTree) (place : Nat)
    (entry : PacketEntry) : Except Error OpenPacket × ScopeTree :=
  let bytes := f.bytesOf entry
  match Preamble.decode f.metadata entry.offset ⟨entry.cursor bytes, scopes.rewind base⟩ with
  | .error e s => (.error e, s.scopes)
  | .ok preamble s =>
    let result :=
      if preamble.streamClass.id = f.streamClass.id then
        .ok (preamble.opened place entry bytes s.scopes.checkpoint)
      else .error (.streamIdMismatch entry.offset preamble.streamClass.id f.streamClass.id)
    (result, s.scopes)

/-- The time at which the packet before a place ends. -/
def endBefore (f : StreamFile) : Nat → Option Nat
  | 0 => none
  | place + 1 => f.index.entries[place]?.map PacketEntry.timestampEnd

end StreamFile

end CommonTrace
