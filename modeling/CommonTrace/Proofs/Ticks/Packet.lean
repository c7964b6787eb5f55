import CommonTrace.Proofs.Ticks.Format

/-!
# Packets of ticks and notes

A packet is made of sections of numbers and texts. So its preamble and its events are read from the
bytes that were written for them, and the fields of its context tell the entry that it is indexed
with.
-/
namespace CommonTrace.Ticks

namespace Record

/-- The fields of an event's header. -/
def header : Record → List (String × Written)
  | tick timestamp _ =>
    [("id", .number .four 0), ("timestamp", .number .eight timestamp.toNat)]
  | note timestamp _ =>
    [("id", .number .four 1), ("timestamp", .number .eight timestamp.toNat)]

/-- The fields of an event. -/
def fields : Record → List (String × Written)
  | tick _ value => [("value", .number .four value.toNat)]
  | note _ text => [("text", .text text)]

/-- The class of an event. -/
def eventClass : Record → EventClass
  | tick _ _ => Ticks.tick
  | note _ _ => Ticks.note

/-- The time of an event. -/
def timestamp : Record → UInt64
  | tick timestamp _ => timestamp
  | note timestamp _ => timestamp

theorem bytes_eq (r : Record) :
    r.bytes = Written.allBytes r.header ++ Written.allBytes r.fields := by
  cases r <;>
    simp [bytes, header, fields, Written.allBytes, Written.bytes, Text.toList_toByteArray]

theorem bytes_ne_nil (r : Record) : r.bytes ≠ [] := by
  intro hnil
  have hlength := congrArg List.length hnil
  cases r <;> simp [bytes] at hlength

theorem sound_header (r : Record) : ∀ f ∈ r.header, f.2.Sound := by
  have htime := r.timestamp.toNat_lt
  cases r <;> simpa [header, Written.Sound, timestamp] using htime

theorem sound_fields {r : Record} (h : r.Sound) : ∀ f ∈ r.fields, f.2.Sound := by
  cases r with
  | tick timestamp value =>
    have hvalue := value.toNat_lt
    simpa [fields, Written.Sound, Sound] using hvalue
  | note timestamp text => simpa [fields, Written.Sound, Sound] using h

theorem headerFields_header (r : Record) (first : Nat) :
    OpenPacket.headerFields (Written.sectionValue .eventHeader first r.header) =
      (some r.eventClass.id, some (IntegerType.ofBytes .eight, (r.timestamp.toNat : Int))) := by
  cases r <;> rfl

theorem classOf_stream (r : Record) (id : Nat) :
    OpenPacket.classOf (stream id) (some r.eventClass.id) = .ok r.eventClass := by
  cases r <;> rfl

/-- An event is read from the bytes that were written for it. -/
theorem takes {r : Record} (h : r.Sound) {packet : Packet} {p : OpenPacket}
    (htarget : p.entry.target = packet.target) (first : Nat) (t : ScopeTree) :
    Takes (OpenPacket.decodeParts (stream packet.streamId.toNat) p) t first r.bytes fun event =>
      event.brief = r.brief packet p.place := by
  have htime : reconstructTimestamp p.timestamp (Value.pattern (r.timestamp.toNat : Int))
      (IntegerType.ofBytes .eight).size = r.timestamp.toNat := by
    rw [Value.pattern_of_lt r.timestamp.toNat_lt]
    exact reconstructTimestamp_of_le (Nat.le_refl 64)
  have hheader : (stream packet.streamId.toNat).eventHeader =
      some (Written.sectionType r.header) := by
    cases r <;> rfl
  have hsection := Written.decodes_section r.sound_header .eventHeader first t
  have hparts := OpenPacket.takes_parts (p := p) (t := t)
    (hheader ▸ hsection.imp fun _ heq => by rw [heq]; exact r.headerFields_header first)
    (r.classOf_stream packet.streamId.toNat) rfl (by cases r <;> rfl) (by cases r <;> rfl)
    (sound_fields h)
  rw [htime, htarget, ← r.bytes_eq] at hparts
  refine hparts.imp fun event hbrief => hbrief.trans ?_
  cases r <;> rfl

end Record

/-- The events of an open packet are those that are left to be read. -/
theorem map_brief_results {records : List Record} (hsound : ∀ r ∈ records, r.Sound)
    {packet : Packet} {p : OpenPacket} (scopes : ScopeTree)
    (htarget : p.entry.target = packet.target)
    (hfaces : p.Faces (records.flatMap Record.bytes)) :
    (p.results (stream packet.streamId.toNat) scopes).map (Except.map Event.brief) =
      records.map fun r => .ok (r.brief packet p.place) := by
  induction records generalizing p with
  | nil =>
    rw [hfaces.results_nil]
    rfl
  | cons r rest ih =>
    have htakes := Record.takes (hsound r List.mem_cons_self) htarget (p.position / 8) scopes
    obtain ⟨event, hbrief, hresults, hleft⟩ := hfaces.results_cons r.bytes_ne_nil htakes
    have hrest := ih (fun r hr => hsound r (List.mem_cons_of_mem _ hr))
      (p := p.after event (p.position + 8 * r.bytes.length)) htarget hleft
    rw [hresults, List.map_cons, hrest, Except.map, hbrief]
    rfl

namespace Packet

/-- The fields of a packet's header. -/
def header (p : Packet) : List (String × Written) :=
  [("magic", .number .four Metadata.magic),
    ("stream_id", .number .four p.streamId.toNat)]

/-- The fields of a packet's context. -/
def context (p : Packet) : List (String × Written) :=
  [("timestamp_begin", .number .eight p.timestampBegin.toNat),
    ("timestamp_end", .number .eight p.timestampEnd.toNat),
    ("content_size", .number .eight p.contentSize),
    ("packet_size", .number .eight p.packetSize),
    ("events_discarded", .number .eight p.discarded.toNat),
    ("cpu_id", .number .four p.cpu.toNat)]

/-- What precedes the events of a packet. -/
def preambleBytes (p : Packet) : List UInt8 :=
  Written.allBytes p.header ++ Written.allBytes p.context

theorem length_preambleBytes (p : Packet) : p.preambleBytes.length = 52 := by
  simp [preambleBytes, header, context, Written.allBytes, Written.bytes]

theorem bytes_eq (p : Packet) :
    p.bytes = p.preambleBytes ++ p.payload ++ List.replicate p.padding 0 := by
  simp [bytes, preambleBytes, header, context, Written.allBytes, Written.bytes]

theorem packetSize_eq (p : Packet) : p.packetSize = 8 * p.bytes.length := by
  rw [bytes_eq, List.length_append, List.length_append, length_preambleBytes,
    List.length_replicate, packetSize, contentSize]
  omega

theorem sound_header (p : Packet) : ∀ f ∈ p.header, f.2.Sound := by
  have hid := p.streamId.toNat_lt
  simpa [header, Written.Sound, Metadata.magic] using hid

theorem sound_context {p : Packet} (h : p.bytes.length < 2 ^ 61) : ∀ f ∈ p.context, f.2.Sound := by
  have hbegin := p.timestampBegin.toNat_lt
  have hend := p.timestampEnd.toNat_lt
  have hdiscarded := p.discarded.toNat_lt
  have hcpu := p.cpu.toNat_lt
  have hpacket : p.packetSize < 2 ^ 64 := by
    rw [packetSize_eq]
    omega
  have hcontent : p.contentSize < 2 ^ 64 := by
    rw [packetSize] at hpacket
    omega
  simpa [context, Written.Sound] using
    ⟨hbegin, hend, hcontent, hpacket, hdiscarded, hcpu⟩

/-- The preamble that a packet is written with. -/
def preamble (p : Packet) : Preamble where
  streamClass := stream p.streamId.toNat
  context := some (Written.sectionValue .packetContext 8 p.context)
  payloadStart := 8 * 52

/-- The preamble of a packet is decoded from the bytes that were written for it. -/
theorem decodes_preamble {p : Packet} (hsize : p.bytes.length < 2 ^ 61)
    (hid : p.streamId = 0 ∨ p.streamId = 1) (offset : Nat) (t : ScopeTree) :
    Decodes (Preamble.decode trace offset) t 0 p.preambleBytes p.preamble := by
  have hclass : Preamble.classOf trace (some p.streamId.toNat) =
      .ok (stream p.streamId.toNat) := by
    rcases hid with hid | hid
    · rw [hid]
      rfl
    · rw [hid]
      rfl
  have hcheck : Preamble.checkHeader trace offset
      (Written.sectionValue .packetHeader 0 p.header) = .ok (some p.streamId.toNat) := by
    have hstream : ((Written.sectionValue .packetHeader 0 p.header).field? "stream_id").bind
        Value.unsigned? = some p.streamId.toNat :=
      Written.unsigned?_field? rfl (Nat.lt_trans p.streamId.toNat_lt (by decide)) _ _
    have hmagic : Preamble.checkMagic offset (Written.sectionValue .packetHeader 0 p.header) =
        .ok () := rfl
    have huuid : Preamble.checkUuid trace offset (Written.sectionValue .packetHeader 0 p.header) =
        .ok () := rfl
    unfold Preamble.checkHeader
    rw [hmagic, huuid, hstream]
    rfl
  refine Preamble.decodes_of_header rfl p.sound_header hcheck fun t => ?_
  exact Preamble.decodes_context hclass rfl (sound_context hsize) _ t

/-- The entry that a packet is indexed with, before the end is known of the one behind it. -/
def entry (p : Packet) (offset fileSize lostEvents : Nat) : PacketEntry :=
  .described offset p.streamId.toNat (8 * 52)
    (PacketEntry.attributesOf (Written.values 8 p.context)) fileSize lostEvents

theorem tells_context {p : Packet} (h : p.bytes.length < 2 ^ 61) :
    Written.Tells p.context p.contentSize p.packetSize p.timestampBegin.toNat
      p.timestampEnd.toNat where
  nodup := by
    show ["timestamp_begin", "timestamp_end", "content_size", "packet_size", "events_discarded",
      "cpu_id"].Nodup
    decide
  sound := sound_context h
  content := rfl
  packet := rfl
  begins := rfl
  ends := rfl

theorem target_context {p : Packet} (h : p.bytes.length < 2 ^ 61) :
    Target.ofAttributes (PacketEntry.attributesOf (Written.values 8 p.context)) = p.target := by
  have hdevice : (PacketEntry.attributesOf (Written.values 8 p.context))["device"]? = none := by
    rw [Written.getElem?_attributesOf (tells_context h).nodup]
    rfl
  have hcpu : (PacketEntry.attributesOf (Written.values 8 p.context))["cpu_id"]? =
      some (.integer p.cpu.toNat) := by
    rw [Written.getElem?_attributesOf (tells_context h).nodup]
    rfl
  have hnarrow : Target.narrow p.cpu.toNat = p.cpu.toNat := by
    have hlt := p.cpu.toNat_lt
    unfold Target.narrow
    rw [Int.bmod_eq_of_le]
    · show -((18446744073709551616 : Int) / 2) ≤ _
      omega
    · show _ < ((18446744073709551616 : Int) + 1) / 2
      omega
  unfold Target.ofAttributes
  rw [hdevice, hcpu]
  show (⟨some s!"CPU{(p.cpu.toNat : Int)}", Target.narrow p.cpu.toNat⟩ : Target) = p.target
  rw [hnarrow]
  rfl

/-- What an entry tells of its packet, and whatever is said of its end later. -/
structure Describes (p : Packet) (offset lostEvents : Nat) (e : PacketEntry) : Prop where
  offset_eq : e.offset = offset
  streamId : e.streamId = p.streamId.toNat
  contentSize : e.contentSize = p.contentSize
  packetSize : e.packetSize = p.packetSize
  payloadStart : e.payloadStart = 8 * 52
  timestampBegin : e.timestampBegin = p.timestampBegin.toNat
  lostEvents_eq : e.lostEvents = lostEvents
  eventsDiscarded : e.eventsDiscarded = some p.discarded.toNat
  target : e.target = p.target

theorem describes_entry {p : Packet} (h : p.bytes.length < 2 ^ 61)
    (offset fileSize lostEvents : Nat) :
    p.Describes offset lostEvents (p.entry offset fileSize lostEvents) ∧
      (p.entry offset fileSize lostEvents).timestampEnd = p.timestampEnd.toNat := by
  have hdiscarded : PacketEntry.number? (PacketEntry.attributesOf (Written.values 8 p.context))
      "events_discarded" = some p.discarded.toNat := (tells_context h).number? rfl
  rw [entry, (tells_context h).described_eq]
  dsimp only
  rw [hdiscarded, target_context h]
  exact ⟨⟨rfl, rfl, rfl, rfl, rfl, rfl, rfl, rfl, rfl⟩, rfl⟩

theorem check_entry {p : Packet} (h : p.bytes.length < 2 ^ 61)
    (hends : p.timestampBegin ≤ p.timestampEnd) {offset fileSize : Nat}
    (hle : offset + p.bytes.length ≤ fileSize) (lostEvents : Nat) :
    (p.entry offset fileSize lostEvents).check fileSize = .ok () := by
  obtain ⟨hdescribes, hend⟩ := describes_entry h offset fileSize lostEvents
  have hbytes := p.packetSize_eq
  have hordered := UInt64.le_iff_toNat_le.1 hends
  rw [PacketEntry.check_eq_ok, hdescribes.payloadStart, hdescribes.contentSize,
    hdescribes.packetSize, hdescribes.timestampBegin, hend]
  refine ⟨?_, ?_, ?_, hordered⟩
  · rw [contentSize]
    exact Nat.mul_le_mul_left 8 (Nat.le_add_right 52 _)
  · exact Nat.le_add_right _ _
  · rw [hbytes]
    show 8 * p.bytes.length ≤ (fileSize - offset) * 8
    omega

end Packet

end CommonTrace.Ticks
