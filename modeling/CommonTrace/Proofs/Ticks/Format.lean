import CommonTrace.Proofs.Stream.Writing
import CommonTrace.Schema.Basic

/-!
# A trace of ticks and notes

The packets of this trace have a header, a context with their times, their sizes, a counter of
discarded events and a processor, and events of two classes: ticks with a number and notes with a
text. This is how packets are written into a file, and what is to be read of the file: outlines of
the packets in its index, and the briefs of their events.
-/
namespace CommonTrace.Ticks

/-- The fields that start a packet. -/
def packetHeader : StructType :=
  ⟨⟨1, Nat.one_pos⟩, [("magic", .ofBytes .four), ("stream_id", .ofBytes .four)]⟩

/-- The fields that describe a packet. -/
def packetContext : StructType :=
  ⟨⟨1, Nat.one_pos⟩,
    [("timestamp_begin", .ofBytes .eight), ("timestamp_end", .ofBytes .eight),
      ("content_size", .ofBytes .eight), ("packet_size", .ofBytes .eight),
      ("events_discarded", .ofBytes .eight), ("cpu_id", .ofBytes .four)]⟩

/-- The fields that start an event. -/
def eventHeader : StructType :=
  ⟨⟨1, Nat.one_pos⟩, [("id", .ofBytes .four), ("timestamp", .ofBytes .eight)]⟩

/-- The class of events with a number. -/
def tick : EventClass :=
  { id := 0, name := "tick", fields := some ⟨⟨1, Nat.one_pos⟩, [("value", .ofBytes .four)]⟩ }

/-- The class of events with a text. -/
def note : EventClass :=
  { id := 1, name := "note", fields := some ⟨⟨1, Nat.one_pos⟩, [("text", .string .utf8)]⟩ }

/-- A class of streams. -/
def stream (id : Nat) : StreamClass :=
  { id, packetContext := some packetContext, eventHeader := some eventHeader,
    events := [tick, note] }

/-- The trace, which has two classes of streams. -/
def trace : Metadata :=
  { byteOrder := .little, packetHeader := some packetHeader, streams := [stream 0, stream 1] }

/-- The trace as it is described: every number has its natural alignment. -/
def traceSpec : Schema.TraceSpec :=
  let number (size : Nat) : Schema.TypeSpec := .integer { size }
  let tick : Schema.EventSpec :=
    { id := 0, name := "tick", fields := some { fields := [("value", number 32)] } }
  let note : Schema.EventSpec :=
    { id := 1, name := "note", fields := some { fields := [("text", .string .utf8)] } }
  let context : Schema.StructSpec :=
    { fields := [("timestamp_begin", number 64), ("timestamp_end", number 64),
        ("content_size", number 64), ("packet_size", number 64), ("events_discarded", number 64),
        ("cpu_id", number 32)] }
  let header : Schema.StructSpec := { fields := [("id", number 32), ("timestamp", number 64)] }
  let stream (id : Nat) : Schema.StreamSpec :=
    { id, packetContext := some context, eventHeader := some header, events := [tick, note] }
  { byteOrder := .little,
    packetHeader := some { fields := [("magic", number 32), ("stream_id", number 32)] },
    streams := [stream 0, stream 1] }

/-- The trace is the one that is described. -/
theorem metadata_traceSpec : traceSpec.metadata = .ok trace := by
  rfl

/-- An event to be written. -/
inductive Record where
  | tick (timestamp : UInt64) (value : UInt32)
  | note (timestamp : UInt64) (text : String)

/-- A packet to be written, which is filled up with some zero bytes. -/
structure Packet where
  streamId : UInt32
  timestampBegin : UInt64
  timestampEnd : UInt64
  discarded : UInt64
  cpu : UInt32
  records : List Record
  padding : Nat

namespace Record

/-- The bytes of an event: the number of its class, its time, and its number or text. -/
def bytes : Record → List UInt8
  | tick timestamp value =>
    Bits.word 4 0 ++ Bits.word 8 timestamp.toNat ++ Bits.word 4 value.toNat
  | note timestamp text =>
    Bits.word 4 1 ++ Bits.word 8 timestamp.toNat ++ text.toUTF8.data.toList ++ [0]

/-- Whether a text can be written, which ends at its first zero character. -/
def Sound : Record → Prop
  | tick _ _ => True
  | note _ text => '\x00' ∉ text.toList

end Record

namespace Packet

/-- The bytes of the events. -/
def payload (p : Packet) : List UInt8 := p.records.flatMap Record.bytes

/-- The bits of a packet up to the end of its events, which start at byte 52. -/
def contentSize (p : Packet) : Nat := 8 * (52 + p.payload.length)

/-- The bits of a packet. -/
def packetSize (p : Packet) : Nat := p.contentSize + 8 * p.padding

/-- The bytes of a packet. -/
def bytes (p : Packet) : List UInt8 :=
  Bits.word 4 Metadata.magic ++ Bits.word 4 p.streamId.toNat
    ++ Bits.word 8 p.timestampBegin.toNat ++ Bits.word 8 p.timestampEnd.toNat
    ++ Bits.word 8 p.contentSize ++ Bits.word 8 p.packetSize
    ++ Bits.word 8 p.discarded.toNat ++ Bits.word 4 p.cpu.toNat
    ++ p.payload ++ List.replicate p.padding 0

end Packet

/-- The file of some packets. -/
def file (packets : List Packet) : ByteArray := ⟨(packets.flatMap Packet.bytes).toArray⟩

/-- Packets that make a file: they are of one stream, begin in order and do not end before they
begin, their counters do not go backwards, and their size in bits is a number of 64 bits. -/
structure Writable (id : UInt32) (packets : List Packet) : Prop where
  nonempty : packets ≠ []
  declared : id = 0 ∨ id = 1
  ofStream : ∀ p ∈ packets, p.streamId = id
  ends : ∀ p ∈ packets, p.timestampBegin ≤ p.timestampEnd
  begins : packets.Pairwise fun last next => last.timestampBegin ≤ next.timestampBegin
  counters : packets.Pairwise fun last next => last.discarded ≤ next.discarded
  texts : ∀ p ∈ packets, ∀ r ∈ p.records, r.Sound
  size_lt : (packets.flatMap Packet.bytes).length < 2 ^ 61

/-- What an index tells of a packet. -/
structure Outline where
  offset : Nat
  contentSize : Nat
  packetSize : Nat
  timestampBegin : Nat
  timestampEnd : Nat
  lostEvents : Nat
  target : Target
  deriving DecidableEq, Repr

/-- The outline of an entry. -/
def outline (e : PacketEntry) : Outline where
  offset := e.offset
  contentSize := e.contentSize
  packetSize := e.packetSize
  timestampBegin := e.timestampBegin
  timestampEnd := e.timestampEnd
  lostEvents := e.lostEvents
  target := e.target

namespace Packet

/-- The processor of a packet. -/
def target (p : Packet) : Target := ⟨some s!"CPU{p.cpu.toNat}", p.cpu.toNat⟩

/-- Where a packet ends that is followed by another one or is the last: an end that is not known is
where the next packet begins. -/
def closedEnd (p : Packet) (next : Option Packet) : Nat :=
  if p.timestampEnd.toNat = PacketEntry.openEnd then
    next.elim PacketEntry.openEnd fun next => next.timestampBegin.toNat
  else p.timestampEnd.toNat

end Packet

/-- The outlines of packets that are written from an offset on, behind a counter of discarded
events. -/
def outlines (offset lostSoFar : Nat) : List Packet → List Outline
  | [] => []
  | p :: rest =>
    { offset, contentSize := p.contentSize, packetSize := p.packetSize,
      timestampBegin := p.timestampBegin.toNat, timestampEnd := p.closedEnd rest.head?,
      lostEvents := p.discarded.toNat - lostSoFar, target := p.target } ::
      outlines (offset + p.bytes.length) p.discarded.toNat rest

/-- The brief of an event that is written into the packet at a place. -/
def Record.brief (p : Packet) (place : Nat) : Record → Event.Brief
  | tick timestamp value =>
    { streamId := p.streamId.toNat, packet := place, timestamp := timestamp.toNat,
      target := p.target, name := "tick", lostEvents? := none,
      fields := [("value", .integer value.toNat)] }
  | note timestamp text =>
    { streamId := p.streamId.toNat, packet := place, timestamp := timestamp.toNat,
      target := p.target, name := "note", lostEvents? := none, fields := [("text", .string text)] }

/-- The record of the events lost before the packet at a place, if there are any. -/
def Packet.lostBriefs (p : Packet) (place lostSoFar : Nat) (endBefore : Option Nat) :
    List Event.Brief :=
  let lost := p.discarded.toNat - lostSoFar
  let since := (endBefore.filter (· != PacketEntry.openEnd)).getD p.timestampBegin.toNat
  if lost = 0 then []
  else
    [{ streamId := p.streamId.toNat, packet := place, timestamp := p.timestampBegin.toNat,
       target := p.target, name := "Lost event", lostEvents? := some lost,
       fields := [("Lost events", .integer lost),
         ("duration", .integer (p.timestampBegin.toNat - since : Nat))] }]

/-- The briefs of what packets yield that are written from a place on, behind a counter of discarded
events and the end of the packet before them. -/
def briefs (place lostSoFar : Nat) (endBefore : Option Nat) : List Packet → List Event.Brief
  | [] => []
  | p :: rest =>
    p.lostBriefs place lostSoFar endBefore ++ p.records.map (Record.brief p place)
      ++ briefs (place + 1) p.discarded.toNat (some (p.closedEnd rest.head?)) rest

end CommonTrace.Ticks
