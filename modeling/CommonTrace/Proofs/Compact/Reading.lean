import CommonTrace.Proofs.Compact.Header

/-!
# Recovering times

Times are recovered from any mixture of compact and extended headers, as long as an event with a
compact header is less than one turn of the 27 bits after the event before it.
-/
namespace CommonTrace.Compact

open Lexical

/-- The fields of the event at a place. -/
def fields (place : Nat) : List (String × Written) := [("value", .number .one (place % 256))]

theorem sound_fields (place : Nat) : ∀ f ∈ fields place, f.2.Sound := by
  have hvalue : place % 256 < 256 := Nat.mod_lt _ (by decide)
  simpa [fields, Written.Sound] using hvalue

/-- The events of a packet are those that are left to be read, if their times can be told from the
time before them. -/
theorem map_brief_results {headers : List Header} {last : UInt64} (h : Recoverable last headers)
    {p : OpenPacket} (hlast : p.timestamp = last.toNat) (hplace : p.place = 0)
    (htarget : p.entry.target = .unknown) {scopes : ScopeTree} (hscopes : Mirrored scopes)
    {place : Nat} (hfaces : p.Faces (payload place headers)) :
    (p.results stream scopes).map (Except.map Event.brief) =
      (headers.zipIdx place).map fun (h, place) => .ok (h.brief place) := by
  induction headers generalizing last p place with
  | nil =>
    rw [hfaces.results_nil]
    rfl
  | cons header rest ih =>
    obtain ⟨hheader, hrest⟩ := h
    have hbytes : header.bytes ++ Bits.word 1 (place % 256) ≠ [] :=
      List.append_ne_nil_of_left_ne_nil header.bytes_ne_nil _
    have hclass : OpenPacket.classOf stream (some tick.id) = .ok tick := rfl
    have htakes := OpenPacket.takes_parts (p := p) (header.takes hscopes (p.position / 8)) hclass
      rfl rfl rfl (sound_fields place)
    obtain ⟨event, hbrief, hresults, hleft⟩ := hfaces.results_cons hbytes htakes
    rw [hlast, header.reconstructTimestamp_eq hheader, hplace, htarget] at hbrief
    have htime : event.timestamp = header.timestamp.toNat := congrArg Event.Brief.timestamp hbrief
    have hafter := ih hrest (p := p.after event _) htime hplace htarget hleft
    rw [hresults, List.map_cons, hafter, Except.map, hbrief]
    rfl

namespace Packet

/-- The fields of a packet's context. -/
def context (p : Packet) : List (String × Written) :=
  [("timestamp_begin", .number .eight p.timestampBegin.toNat),
    ("timestamp_end", .number .eight p.timestampEnd.toNat),
    ("content_size", .number .eight p.size), ("packet_size", .number .eight p.size)]

/-- What precedes the events of a packet. -/
def preambleBytes (p : Packet) : List UInt8 := Written.allBytes p.context

/-- The preamble that a packet is written with. -/
def preamble (p : Packet) : Preamble where
  streamClass := stream
  context := some (Written.sectionValue .packetContext 0 p.context)
  payloadStart := 8 * 32

/-- The entry that a packet is indexed with. -/
def entry (p : Packet) : PacketEntry :=
  .described 0 0 (8 * 32) (PacketEntry.attributesOf (Written.values 0 p.context)) p.file.size 0

variable {p : Packet}

@[simp] theorem length_preambleBytes (p : Packet) : p.preambleBytes.length = 32 := by
  simp [preambleBytes, context, Written.allBytes, Written.bytes]

theorem bytes_eq (p : Packet) : p.bytes = p.preambleBytes ++ payload 0 p.headers := by
  simp [bytes, preambleBytes, context, Written.allBytes, Written.bytes]

theorem size_eq (p : Packet) : p.size = 8 * p.file.size := by
  show _ = 8 * p.bytes.length
  simp [bytes_eq, size]

theorem le_size (p : Packet) : 8 * 32 ≤ p.size := Nat.mul_le_mul_left 8 (Nat.le_add_right 32 _)

namespace Writable

theorem tells_context (h : p.Writable) :
    Written.Tells p.context p.size p.size p.timestampBegin.toNat p.timestampEnd.toNat where
  nodup := by
    show ["timestamp_begin", "timestamp_end", "content_size", "packet_size"].Nodup
    decide
  sound := by
    have hbegin := p.timestampBegin.toNat_lt
    have hend := p.timestampEnd.toNat_lt
    simpa [context, Written.Sound] using ⟨hbegin, hend, h.size_lt⟩
  content := rfl
  packet := rfl
  begins := rfl
  ends := rfl

theorem decodes_preamble (h : p.Writable) (offset : Nat) :
    Decodes (Preamble.decode trace offset) trace.baseScopes 0 p.preambleBytes p.preamble :=
  Preamble.decodes_of_noHeader rfl fun t =>
    Preamble.decodes_context rfl rfl h.tells_context.sound 0 t

theorem entry_eq (h : p.Writable) :
    p.entry =
      { offset := 0, streamId := 0, packetSize := p.size, contentSize := p.size,
        payloadStart := 8 * 32, timestampBegin := p.timestampBegin.toNat,
        timestampEnd := p.timestampEnd.toNat, lostEvents := 0, eventsDiscarded := none,
        target := .unknown,
        attributes := PacketEntry.attributesOf (Written.values 0 p.context) } := by
  have hmissing (name : String) (hname : p.context.lookup name = none) :
      (PacketEntry.attributesOf (Written.values 0 p.context))[name]? = none := by
    rw [Written.getElem?_attributesOf h.tells_context.nodup, hname]
    rfl
  have hdiscarded : PacketEntry.number? (PacketEntry.attributesOf (Written.values 0 p.context))
      "events_discarded" = none := by
    rw [PacketEntry.number?, hmissing _ rfl]
    rfl
  have htarget : Target.ofAttributes (PacketEntry.attributesOf (Written.values 0 p.context)) =
      .unknown := by
    unfold Target.ofAttributes
    rw [hmissing _ rfl, hmissing _ rfl]
    rfl
  rw [entry, h.tells_context.described_eq]
  simp only [hdiscarded, htarget]

theorem check_entry (h : p.Writable) : p.entry.check p.file.size = .ok () := by
  have hsize := p.size_eq
  rw [PacketEntry.check_eq_ok, h.entry_eq]
  refine ⟨p.le_size, Nat.le_refl _, ?_, UInt64.le_iff_toNat_le.1 h.ends⟩
  simp only
  omega

/-- The packet is found to be the only one of its file. -/
theorem found_entry (h : p.Writable) (policy : LostEventsPolicy) :
    PacketIndex.Found trace policy p.file stream 0 0 0 [p.entry] := by
  have hsize := p.size_eq
  have hle := p.le_size
  have hbytes : (p.file.extract 0 p.file.size).data.toList =
      p.preambleBytes ++ payload 0 p.headers := by
    rw [ByteArray.extract_zero_size, ← p.bytes_eq]
    rfl
  have hlost : PacketEntry.lostBefore 0 p.entry.eventsDiscarded 0 policy = .ok 0 := by
    rw [h.entry_eq]
    rfl
  have halone : trace.entryAlone policy p.file 0 0 = .ok (p.entry, stream) :=
    Metadata.entryAlone_of_described
      (Metadata.preambleAlone_of_decodes (h.decodes_preamble 0) hbytes) rfl h.check_entry hlost
  rw [h.entry_eq] at halone ⊢
  refine .cons (by omega) halone ?_ (Nat.zero_le _) (.nil ?_)
  · simp only
    omega
  · simp only [PacketEntry.byteSize]
    omega

/-- The packet yields its events. -/
theorem map_brief_packetResults (h : p.Writable) {buffer : ByteArray}
    (hbuffer : buffer.data.toList = p.bytes) (endBefore : Option Nat) :
    (trace.packetResults 0 p.entry buffer endBefore).map (Except.map Event.brief) =
      p.headers.zipIdx.map fun (h, place) => .ok (h.brief place) := by
  have hbytes : buffer.data.toList = p.preambleBytes ++ payload 0 p.headers ++ [] := by
    rw [hbuffer, p.bytes_eq, List.append_nil]
  have hstart : p.preamble.payloadStart = 8 * p.preambleBytes.length := by
    rw [p.length_preambleBytes]
    rfl
  have hcontent : p.entry.contentSize =
      8 * (p.preambleBytes.length + (payload 0 p.headers).length) := by
    rw [h.entry_eq, p.length_preambleBytes]
    rfl
  have hlast : p.entry.timestampBegin = p.timestampBegin.toNat := by rw [h.entry_eq]
  have hlost : p.entry.lostEvents = 0 := by rw [h.entry_eq]
  have htarget : p.entry.target = .unknown := by rw [h.entry_eq]
  generalize p.entry = e at hcontent hlast hlost htarget ⊢
  obtain ⟨scopes, hscopes, hfaces, hresults⟩ := Metadata.packetResults_of_decodes hbytes hcontent
    hstart (h.decodes_preamble e.offset) 0 endBefore
  have hclass : p.preamble.streamClass = stream := rfl
  have hnone : (p.preamble.opened 0 e buffer scopes.checkpoint).lostRecord? trace.byteOrder
      stream.id endBefore = none := if_pos hlost
  rw [hresults, hclass, hnone, Option.toList_none, List.map_nil, List.nil_append]
  exact map_brief_results h.recoverable hlast rfl htarget hscopes hfaces

end Writable

/-- Times are recovered from compact and extended headers in any order: opening the file of a packet
and draining it yields an event for every header, with its whole time and its place modulo 256 as
its value. -/
theorem drain_file (h : p.Writable) (policy : LostEventsPolicy) (path : String) :
    ∃ f, StreamFile.ofInput trace policy { path, content := .ok p.file } = .ok f ∧
      (StreamReader.start f).drain.1.map (Except.map Event.brief) =
        p.headers.zipIdx.map fun (h, place) => .ok (h.brief place) := by
  have hsize := p.size_eq
  have hle := p.le_size
  obtain ⟨f, hopen, hfile, hentries⟩ : ∃ f,
      StreamFile.ofInput trace policy { path, content := .ok p.file } = .ok f ∧
      f.bytes = p.file ∧ f.index.entries.toList = [p.entry] :=
    ⟨_, StreamFile.ofInput_of_build rfl (by omega)
      (PacketIndex.build_of_found (h.found_entry policy)) (List.cons_ne_nil _ _), rfl, rfl⟩
  refine ⟨f, hopen, ?_⟩
  have hbuffer : (f.bytesOf p.entry).data.toList = p.bytes := by
    have hoffset : p.entry.offset = 0 := rfl
    have hnext : p.entry.nextOffset = p.file.size := by
      rw [h.entry_eq]
      simp only [PacketEntry.nextOffset, PacketEntry.byteSize]
      omega
    rw [StreamFile.bytesOf, hoffset, hnext, hfile, ByteArray.extract_zero_size]
    rfl
  have hevents := h.map_brief_packetResults hbuffer (f.endBefore 0)
  rw [StreamReader.drain_eq_flatMap hopen, hentries, List.zipIdx_singleton,
    List.flatMap_singleton]
  exact hevents

/-- A packet of four events: the low 27 bits of the time turn over before the second, the third,
whose header is extended, goes back, and the fourth goes on from there. -/
def four : Packet where
  timestampBegin := 134217727
  timestampEnd := 134217740
  headers := [.compact 134217727, .compact 134217730, .extended 5, .compact 134217732]

theorem drain_file_four :
    four.Writable ∧
      ∃ f, StreamFile.ofInput trace .error { path := "stream", content := .ok four.file } = .ok f ∧
        (StreamReader.start f).drain.1.map (Except.map Event.brief) =
          [.ok ⟨0, 0, 134217727, .unknown, "tick", none, [("value", .integer 0)]⟩,
            .ok ⟨0, 0, 134217730, .unknown, "tick", none, [("value", .integer 1)]⟩,
            .ok ⟨0, 0, 5, .unknown, "tick", none, [("value", .integer 2)]⟩,
            .ok ⟨0, 0, 134217732, .unknown, "tick", none, [("value", .integer 3)]⟩] := by
  have hwritable : four.Writable := by
    constructor
    · decide
    · exact ⟨⟨by decide, by decide⟩, ⟨by decide, by decide⟩, trivial, ⟨by decide, by decide⟩,
        trivial⟩
    · decide +kernel
  exact ⟨hwritable, drain_file hwritable .error "stream"⟩

end Packet

end CommonTrace.Compact
