import CommonTrace.Proofs.Stream.Writing
import CommonTrace.Schema.Basic

/-!
# A trace with compact headers

The events of this trace start with a number of five bits, which selects one of two layouts: a
compact one, with the low 27 bits of the time, and an extended one, with a number of the event class
and the whole time. This is how a packet is written with any mixture of them, and what is to be read
of it.
-/
namespace CommonTrace.Compact

/-- The number that selects the layout: up to 30 it is that of the event class. -/
def idType : EnumType :=
  ⟨⟨5, by decide, by decide, false, .little, .decimal, ⟨1, Nat.one_pos⟩, .none⟩,
    [⟨0, 30, "compact", by decide⟩, ⟨31, 31, "extended", by decide⟩]⟩

/-- The low bits of a time. -/
def lowType : IntegerType :=
  ⟨27, by decide, by decide, false, .little, .decimal, ⟨1, Nat.one_pos⟩, .none⟩

/-- The path of the number that selects the layout. -/
def tag : FieldPath := ⟨"id", by decide⟩

/-- The layouts. -/
def layouts : List (String × Declaration) :=
  [("compact", .struct ⟨1, Nat.one_pos⟩ [("timestamp", .integer lowType)]),
    ("extended", .struct ⟨1, Nat.one_pos⟩
      [("id", .ofBytes .four), ("timestamp", .ofBytes .eight)])]

/-- The fields that start an event. -/
def eventHeader : StructType :=
  ⟨⟨1, Nat.one_pos⟩, [("id", .enumeration idType), ("v", .variant tag layouts)]⟩

/-- The fields that describe a packet. -/
def packetContext : StructType :=
  ⟨⟨1, Nat.one_pos⟩,
    [("timestamp_begin", .ofBytes .eight), ("timestamp_end", .ofBytes .eight),
      ("content_size", .ofBytes .eight), ("packet_size", .ofBytes .eight)]⟩

/-- The class of the events, each with a byte. -/
def tick : EventClass :=
  { id := 0, name := "tick", fields := some ⟨⟨1, Nat.one_pos⟩, [("value", .ofBytes .one)]⟩ }

/-- The class of the stream. -/
def stream : StreamClass :=
  { id := 0, packetContext := some packetContext, eventHeader := some eventHeader,
    events := [tick] }

/-- The trace, whose packets have no header. -/
def trace : Metadata := { byteOrder := .little, streams := [stream] }

/-- The trace as it is described: every number has its natural alignment. -/
def traceSpec : Schema.TraceSpec :=
  let number (size : Nat) : Schema.TypeSpec := .integer { size }
  let context : Schema.StructSpec :=
    { fields := [("timestamp_begin", number 64), ("timestamp_end", number 64),
        ("content_size", number 64), ("packet_size", number 64)] }
  let compact : Schema.TypeSpec := .struct 1 [("timestamp", number 27)]
  let extended : Schema.TypeSpec := .struct 1 [("id", number 32), ("timestamp", number 64)]
  let header : Schema.StructSpec :=
    { fields := [
        ("id", .enumeration { size := 5 }
          [{ label := "compact", first := 0, last := some 30 },
            { label := "extended", first := 31 }]),
        ("v", .variant "id" [("compact", compact), ("extended", extended)])] }
  let tick : Schema.EventSpec :=
    { id := 0, name := "tick", fields := some { fields := [("value", number 8)] } }
  let stream : Schema.StreamSpec :=
    { id := 0, packetContext := some context, eventHeader := some header, events := [tick] }
  { byteOrder := .little, streams := [stream] }

/-- The trace is the one that is described. -/
theorem metadata_traceSpec : traceSpec.metadata = .ok trace := by
  rfl

/-- A header to be written, of an event with a time. -/
inductive Header where
  | compact (timestamp : UInt64)
  | extended (timestamp : UInt64)

namespace Header

/-- The time of the event. -/
def timestamp : Header → UInt64
  | compact timestamp => timestamp
  | extended timestamp => timestamp

/-- The bytes of a header: the number 0 in five bits and the low 27 bits of the time, or the number
31, padded to a byte, the number of the class and the time. -/
def bytes : Header → List UInt8
  | compact timestamp => Bits.word 4 (2 ^ 5 * (timestamp.toNat % 2 ^ 27))
  | extended timestamp => 31 :: (Bits.word 4 0 ++ Bits.word 8 timestamp.toNat)

/-- Whether the time can be told from the header and the time of the event before it. -/
def Recoverable (last : UInt64) : Header → Prop
  | compact timestamp => last ≤ timestamp ∧ timestamp.toNat < last.toNat + 2 ^ 27
  | extended _ => True

end Header

/-- Whether the times of some events can be told from the time before the first one on. -/
def Recoverable (last : UInt64) : List Header → Prop
  | [] => True
  | h :: rest => h.Recoverable last ∧ Recoverable h.timestamp rest

/-- The bytes of some events, each with its place modulo 256 as its value, from a place on. -/
def payload (place : Nat) (headers : List Header) : List UInt8 :=
  (headers.zipIdx place).flatMap fun (h, place) => h.bytes ++ Bits.word 1 (place % 256)

/-- A packet to be written. -/
structure Packet where
  timestampBegin : UInt64
  timestampEnd : UInt64
  headers : List Header

namespace Packet

/-- The bits of a packet, whose events start at byte 32. -/
def size (p : Packet) : Nat := 8 * (32 + (payload 0 p.headers).length)

/-- The bytes of a packet. -/
def bytes (p : Packet) : List UInt8 :=
  Bits.word 8 p.timestampBegin.toNat ++ Bits.word 8 p.timestampEnd.toNat ++ Bits.word 8 p.size
    ++ Bits.word 8 p.size ++ payload 0 p.headers

/-- The file of a packet. -/
def file (p : Packet) : ByteArray := ⟨p.bytes.toArray⟩

end Packet

/-- A packet that can be written and read back: it does not end before it begins, the times of its
events can be told from its begin on, and its size in bits is a number of 64 bits. -/
structure Packet.Writable (p : Packet) : Prop where
  ends : p.timestampBegin ≤ p.timestampEnd
  recoverable : Recoverable p.timestampBegin p.headers
  size_lt : p.size < 2 ^ 64

/-- The brief of the event that is written at a place. -/
def Header.brief (h : Header) (place : Nat) : Event.Brief where
  streamId := 0
  packet := 0
  timestamp := h.timestamp.toNat
  target := .unknown
  name := "tick"
  lostEvents? := none
  fields := [("value", .integer (place % 256 : Nat))]

end CommonTrace.Compact
