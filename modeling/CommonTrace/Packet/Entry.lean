import CommonTrace.Error
import CommonTrace.LostEventsPolicy
import CommonTrace.Packet.Target

/-!
# Packet entries

An entry tells where a packet lies in its file, how much of it holds events, which
time it covers and how many events were lost before it. It is made of the scalar
fields of the packet's context, each of which may be missing: sizes default to one
another and to the rest of the file, times to all time.
-/
namespace CommonTrace

/-- The description of one packet of a file. Offsets are in bytes and sizes in bits. -/
structure PacketEntry where
  offset : Nat
  streamId : Nat
  packetSize : Nat
  contentSize : Nat
  payloadStart : Nat
  timestampBegin : Nat
  timestampEnd : Nat
  lostEvents : Nat
  eventsDiscarded : Option Nat
  target : Target
  attributes : Std.TreeMap String AttributeValue

namespace PacketEntry

/-- The end time of a packet whose end is not known. -/
def openEnd : Nat := 0xFFFFFFFFFFFFFFFF

/-- Whether the end of the packet is not known. -/
def isOpenEnded (e : PacketEntry) : Bool := e.timestampEnd == openEnd

/-- The bytes a packet takes in its file. -/
def byteSize (e : PacketEntry) : Nat := (e.packetSize + 7) / 8

/-- Where the packet after this one starts. -/
def nextOffset (e : PacketEntry) : Nat := e.offset + e.byteSize

/-- Whether a time is within the packet's. -/
def includes (e : PacketEntry) (timestamp : Nat) : Bool :=
  e.timestampBegin ≤ timestamp && timestamp ≤ e.timestampEnd

/-- The scalar fields of a packet context by name. -/
def attributesOf (fields : List (String × Value)) : Std.TreeMap String AttributeValue :=
  .ofList (fields.filterMap fun (name, value) =>
    (AttributeValue.ofValue? value).map fun scalar => (name, scalar))

/-- The events lost before a packet, by its own counter and the last one before it. -/
def lostBefore (offset : Nat) (counter : Option Nat) (lostSoFar : Nat)
    (policy : LostEventsPolicy) : Except Error Nat :=
  match counter with
  | none => .ok 0
  | some counter =>
    if lostSoFar ≤ counter then .ok (counter - lostSoFar)
    else
      match policy with
      | .clamp => .ok 0
      | .error => .error (.inconsistentLostEvents offset counter lostSoFar)

/-- The entry of the packet at an offset, given the fields of its context, the bit its
events start at, and the last counter before it. Content must lie between the start of
the events and the end of the packet, and the packet within the file. -/
def ofContext (offset streamId payloadStart : Nat) (context : List (String × Value))
    (fileSize lostSoFar : Nat) (policy : LostEventsPolicy) : Except Error PacketEntry := do
  let attributes := attributesOf context
  let unsigned? (name : String) : Option Nat := attributes[name]?.bind AttributeValue.unsigned?
  let remaining := (fileSize - offset) * 8
  let contentSize := ((unsigned? "content_size").or (unsigned? "packet_size")).getD remaining
  let packetSize := (unsigned? "packet_size").getD
    (if contentSize = 0 then remaining else contentSize)
  if contentSize < payloadStart ∨ packetSize < contentSize then
    throw (.inconsistentPacketSize offset payloadStart contentSize packetSize)
  if remaining < packetSize then
    throw (.truncatedPacket offset packetSize remaining)
  let timestampBegin := (unsigned? "timestamp_begin").getD 0
  let timestampEnd := (unsigned? "timestamp_end").getD openEnd
  if timestampEnd < timestampBegin then
    throw (.invalidTimestampRange offset timestampBegin timestampEnd)
  let eventsDiscarded := unsigned? "events_discarded"
  let lostEvents ← lostBefore offset eventsDiscarded lostSoFar policy
  return { offset, streamId, packetSize, contentSize, payloadStart, timestampBegin, timestampEnd,
           lostEvents, eventsDiscarded, target := .ofAttributes attributes, attributes }

end PacketEntry

end CommonTrace
