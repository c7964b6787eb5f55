import CommonTrace.Proofs.Ticks.Packet

/-!
# Reading ticks and notes

Whatever is written into a file of packets is read back from it: the index describes the packets,
and reading the file from its start yields their events, each packet's behind a record of the events
that were lost before it.
-/
namespace CommonTrace.Ticks

/-- The entries that packets are found to have that are written from an offset on, behind a counter
of discarded events. -/
def entries (fileSize offset lostSoFar : Nat) : List Packet → List PacketEntry
  | [] => []
  | p :: rest =>
    p.entry offset fileSize (p.discarded.toNat - lostSoFar) ::
      entries fileSize (offset + p.bytes.length) p.discarded.toNat rest

/-- Packets of one stream whose begins and counters do not go backwards from some earlier ones
on. -/
structure Follow (id : UInt32) (earliest lostSoFar : Nat) (packets : List Packet) : Prop where
  declared : id = 0 ∨ id = 1
  ofStream : ∀ p ∈ packets, p.streamId = id
  ends : ∀ p ∈ packets, p.timestampBegin ≤ p.timestampEnd
  begins : packets.Pairwise fun last next => last.timestampBegin ≤ next.timestampBegin
  counters : packets.Pairwise fun last next => last.discarded ≤ next.discarded
  earliest_le : ∀ p ∈ packets, earliest ≤ p.timestampBegin.toNat
  lostSoFar_le : ∀ p ∈ packets, lostSoFar ≤ p.discarded.toNat

theorem Follow.tail {id : UInt32} {earliest lostSoFar : Nat} {p : Packet} {rest : List Packet}
    (h : Follow id earliest lostSoFar (p :: rest)) :
    Follow id p.timestampBegin.toNat p.discarded.toNat rest where
  declared := h.declared
  ofStream q hq := h.ofStream q (List.mem_cons_of_mem _ hq)
  ends q hq := h.ends q (List.mem_cons_of_mem _ hq)
  begins := (List.pairwise_cons.1 h.begins).2
  counters := (List.pairwise_cons.1 h.counters).2
  earliest_le q hq := UInt64.le_iff_toNat_le.1 ((List.pairwise_cons.1 h.begins).1 q hq)
  lostSoFar_le q hq := UInt64.le_iff_toNat_le.1 ((List.pairwise_cons.1 h.counters).1 q hq)

theorem Writable.follow {id : UInt32} {packets : List Packet} (h : Writable id packets) :
    Follow id 0 0 packets where
  declared := h.declared
  ofStream := h.ofStream
  ends := h.ends
  begins := h.begins
  counters := h.counters
  earliest_le _ _ := Nat.zero_le _
  lostSoFar_le _ _ := Nat.zero_le _

/-- The packet at an offset is found to be the one that is written there. -/
theorem entryAlone_of_written {buffer : ByteArray} {before after : List UInt8} {p : Packet}
    (hbytes : buffer.data.toList = before ++ p.bytes ++ after) (hsize : buffer.size < 2 ^ 61)
    (hid : p.streamId = 0 ∨ p.streamId = 1) (hends : p.timestampBegin ≤ p.timestampEnd)
    {lostSoFar : Nat} (hlost : lostSoFar ≤ p.discarded.toNat) (policy : LostEventsPolicy) :
    trace.entryAlone policy buffer before.length lostSoFar =
      .ok (p.entry before.length buffer.size (p.discarded.toNat - lostSoFar),
        stream p.streamId.toNat) := by
  have hlength : buffer.size = before.length + p.bytes.length + after.length := by
    rw [← List.length_append, ← List.length_append, ← hbytes, Array.length_toList]
    rfl
  have hsmall : p.bytes.length < 2 ^ 61 := by omega
  have hrest : (buffer.extract before.length buffer.size).data.toList =
      p.preambleBytes ++ (p.payload ++ List.replicate p.padding 0 ++ after) := by
    rw [List.append_assoc] at hbytes
    rw [Cursor.toList_extract_rest hbytes, p.bytes_eq]
    simp only [List.append_assoc]
  have hpreamble := Metadata.preambleAlone_of_decodes
    (Packet.decodes_preamble hsmall hid before.length trace.baseScopes) hrest
  obtain ⟨hdescribes, -⟩ := Packet.describes_entry hsmall before.length buffer.size
    (p.discarded.toNat - lostSoFar)
  refine Metadata.entryAlone_of_described hpreamble rfl ?_ ?_
  · exact Packet.check_entry hsmall hends (by omega) _
  · rw [hdescribes.eventsDiscarded, PacketEntry.lostBefore_eq_ok_iff]
    exact ⟨rfl, fun _ => hlost⟩

/-- Each packet is found behind the one before it. -/
theorem found_entries {buffer : ByteArray} {before : List UInt8} {packets : List Packet}
    (hbytes : buffer.data.toList = before ++ packets.flatMap Packet.bytes)
    (hsize : buffer.size < 2 ^ 61) {id : UInt32} {earliest lostSoFar : Nat}
    (h : Follow id earliest lostSoFar packets) (policy : LostEventsPolicy) :
    PacketIndex.Found trace policy buffer (stream id.toNat) before.length lostSoFar earliest
      (entries buffer.size before.length lostSoFar packets) := by
  induction packets generalizing before earliest lostSoFar with
  | nil =>
    have hlength := congrArg List.length hbytes
    refine .nil ?_
    show buffer.data.toList.length ≤ _
    rw [hlength]
    simp
  | cons p rest ih =>
    have hid := h.ofStream p List.mem_cons_self
    have hrest : buffer.data.toList = before ++ p.bytes ++ rest.flatMap Packet.bytes := by
      rw [hbytes, List.flatMap_cons, List.append_assoc]
    have hlength : buffer.size =
        before.length + p.bytes.length + (rest.flatMap Packet.bytes).length := by
      rw [← List.length_append, ← List.length_append, ← hrest, Array.length_toList]
      rfl
    have hsmall : p.bytes.length < 2 ^ 61 := by omega
    have hpreamble : 52 ≤ p.bytes.length := by
      rw [p.bytes_eq, List.length_append, List.length_append, p.length_preambleBytes]
      omega
    have hdescribes := (Packet.describes_entry hsmall before.length buffer.size
      (p.discarded.toNat - lostSoFar)).1
    have halone := entryAlone_of_written hrest hsize (by rw [hid]; exact h.declared)
      (h.ends p List.mem_cons_self) (h.lostSoFar_le p List.mem_cons_self) policy
    rw [hid] at halone
    rw [entries]
    generalize p.entry before.length buffer.size (p.discarded.toNat - lostSoFar) = e
      at hdescribes halone ⊢
    have hpacket : e.packetSize = 8 * p.bytes.length := by
      rw [hdescribes.packetSize, p.packetSize_eq]
    have hbyteSize : e.byteSize = p.bytes.length := by
      rw [PacketEntry.byteSize, hpacket]
      omega
    have hbegin : earliest ≤ e.timestampBegin := by
      rw [hdescribes.timestampBegin]
      exact h.earliest_le p List.mem_cons_self
    refine .cons (by omega) halone (by omega) hbegin ?_
    rw [hbyteSize, hdescribes.eventsDiscarded, Option.getD_some, hdescribes.timestampBegin,
      ← List.length_append]
    exact ih hrest h.tail

/-- The end of a packet is told by the next one, if it is not known. -/
theorem timestampEnd_closed {p : Packet} {e : PacketEntry}
    (h : e.timestampEnd = p.timestampEnd.toNat) (next : Option PacketEntry) :
    (next.elim e e.closedBy).timestampEnd =
      if p.timestampEnd.toNat = PacketEntry.openEnd then
        next.elim PacketEntry.openEnd (·.timestampBegin)
      else p.timestampEnd.toNat := by
  cases next with
  | none =>
    rw [Option.elim_none, Option.elim_none, h]
    split
    next hopen => exact hopen
    · rfl
  | some next =>
    rw [Option.elim_some, Option.elim_some, PacketEntry.closedBy, PacketEntry.isOpenEnded, h]
    by_cases hopen : p.timestampEnd.toNat = PacketEntry.openEnd
    · rw [if_pos (beq_iff_eq.2 hopen), if_pos hopen]
    · rw [if_neg (by simpa using hopen), if_neg hopen, h]

theorem Packet.Describes.closed {p : Packet} {offset lostEvents : Nat} {e : PacketEntry}
    (h : p.Describes offset lostEvents e) (next : Option PacketEntry) :
    p.Describes offset lostEvents (next.elim e e.closedBy) := by
  cases next with
  | none => exact h
  | some next =>
    obtain ⟨timestampEnd, heq⟩ := e.closedBy_eq next
    rw [Option.elim_some, heq]
    exact { h with }

/-- What the index tells of a packet that is followed by others. -/
theorem describes_closed {p : Packet} {rest : List Packet}
    (h : ∀ q ∈ p :: rest, q.bytes.length < 2 ^ 61) (fileSize offset lostEvents after lost : Nat) :
    p.Describes offset lostEvents ((entries fileSize after lost rest).head?.elim
        (p.entry offset fileSize lostEvents) (p.entry offset fileSize lostEvents).closedBy) ∧
      ((entries fileSize after lost rest).head?.elim (p.entry offset fileSize lostEvents)
        (p.entry offset fileSize lostEvents).closedBy).timestampEnd = p.closedEnd rest.head? := by
  obtain ⟨hdescribes, hend⟩ := Packet.describes_entry (h p List.mem_cons_self) offset fileSize
    lostEvents
  refine ⟨hdescribes.closed _, ?_⟩
  rw [timestampEnd_closed hend, Packet.closedEnd]
  cases rest with
  | nil => rfl
  | cons q rest =>
    have hbegin := (Packet.describes_entry (h q (by simp)) after fileSize
      (q.discarded.toNat - lost)).1.timestampBegin
    rw [entries, List.head?_cons, Option.elim_some, hbegin]
    rfl

/-- The index outlines the packets that are written. -/
theorem map_outline_closeEnds {packets : List Packet}
    (h : ∀ p ∈ packets, p.bytes.length < 2 ^ 61) (fileSize offset lostSoFar : Nat) :
    (PacketIndex.closeEnds (entries fileSize offset lostSoFar packets)).map outline =
      outlines offset lostSoFar packets := by
  induction packets generalizing offset lostSoFar with
  | nil => rfl
  | cons p rest ih =>
    obtain ⟨hdescribes, hend⟩ := describes_closed h fileSize offset (p.discarded.toNat - lostSoFar)
      (offset + p.bytes.length) p.discarded.toNat
    rw [entries, PacketIndex.closeEnds, List.map_cons, outlines,
      ih fun q hq => h q (List.mem_cons_of_mem _ hq)]
    congr 1
    rw [outline, hdescribes.offset_eq, hdescribes.contentSize, hdescribes.packetSize,
      hdescribes.timestampBegin, hend, hdescribes.lostEvents_eq, hdescribes.target]

/-- The record of the events lost before a packet. -/
theorem map_brief_lostRecord? {p : Packet} {offset lostSoFar : Nat} {e : PacketEntry}
    (he : p.Describes offset (p.discarded.toNat - lostSoFar) e) (place : Nat) (buffer : ByteArray)
    (point : ScopeCheckpoint) (endBefore : Option Nat) :
    (((p.preamble.opened place e buffer point).lostRecord? trace.byteOrder
      p.preamble.streamClass.id endBefore).toList.map .ok).map (Except.map Event.brief) =
        (p.lostBriefs place lostSoFar endBefore).map
          (.ok : Event.Brief → Except Error Event.Brief) := by
  have hlost : (p.preamble.opened place e buffer point).entry.lostEvents =
      p.discarded.toNat - lostSoFar := he.lostEvents_eq
  unfold OpenPacket.lostRecord? Packet.lostBriefs
  by_cases hnone : p.discarded.toNat - lostSoFar = 0
  · rw [if_pos (hlost.trans hnone), if_pos hnone]
    rfl
  · rw [if_neg (hlost ▸ hnone), if_neg hnone, hlost]
    dsimp only [Preamble.opened]
    rw [he.timestampBegin, he.target]
    rfl

/-- A packet yields a record of the events lost before it, if there are any, and then its
events. -/
theorem map_brief_packetResults {p : Packet} {offset lostSoFar : Nat} {e : PacketEntry}
    (he : p.Describes offset (p.discarded.toNat - lostSoFar) e) {buffer : ByteArray}
    (hbuffer : buffer.data.toList = p.bytes) (hsmall : p.bytes.length < 2 ^ 61)
    (hid : p.streamId = 0 ∨ p.streamId = 1) (hsound : ∀ r ∈ p.records, r.Sound) (place : Nat)
    (endBefore : Option Nat) :
    (trace.packetResults place e buffer endBefore).map (Except.map Event.brief) =
      (p.lostBriefs place lostSoFar endBefore ++ p.records.map (Record.brief p place)).map .ok := by
  have hlength : p.preambleBytes.length = 52 := p.length_preambleBytes
  have hcontent : e.contentSize = 8 * (p.preambleBytes.length + p.payload.length) := by
    rw [he.contentSize, Packet.contentSize, hlength]
  have hstart : p.preamble.payloadStart = 8 * p.preambleBytes.length := by
    rw [hlength]
    rfl
  obtain ⟨scopes, -, hfaces, hresults⟩ := Metadata.packetResults_of_decodes
    (hbuffer.trans p.bytes_eq) hcontent hstart
    (Packet.decodes_preamble hsmall hid e.offset trace.baseScopes) place endBefore
  have hevents := map_brief_results hsound scopes he.target hfaces
  have hlost := map_brief_lostRecord? he place buffer scopes.checkpoint endBefore
  rw [hresults, List.map_append, hlost, List.map_append, List.map_map]
  exact congrArg _ hevents

theorem length_le_of_mem {packets : List Packet} {p : Packet} (h : p ∈ packets) :
    p.bytes.length ≤ (packets.flatMap Packet.bytes).length := by
  obtain ⟨init, rest, rfl⟩ := List.append_of_mem h
  rw [List.flatMap_append, List.flatMap_cons, List.length_append, List.length_append]
  omega

/-- The packets from a place of a file on yield what was written into them. -/
theorem map_brief_flatMap {f : StreamFile} {before : List UInt8} {packets : List Packet}
    (hbytes : f.bytes.data.toList = before ++ packets.flatMap Packet.bytes)
    (hsize : f.bytes.size < 2 ^ 61) {id : UInt32} {earliest lostSoFar : Nat}
    (h : Follow id earliest lostSoFar packets) (hsound : ∀ p ∈ packets, ∀ r ∈ p.records, r.Sound)
    {indexed : List PacketEntry}
    (hentries : f.index.entries.toList =
      indexed ++ PacketIndex.closeEnds (entries f.bytes.size before.length lostSoFar packets)) :
    (((PacketIndex.closeEnds (entries f.bytes.size before.length lostSoFar packets)).zipIdx
      indexed.length).flatMap fun (entry, place) => trace.packetResults place entry
        (f.bytesOf entry) (f.endBefore place)).map (Except.map Event.brief) =
      (briefs indexed.length lostSoFar (f.endBefore indexed.length) packets).map .ok := by
  induction packets generalizing before earliest lostSoFar indexed with
  | nil => rfl
  | cons p rest ih =>
    have hid := h.ofStream p List.mem_cons_self
    have hrest : f.bytes.data.toList = before ++ p.bytes ++ rest.flatMap Packet.bytes := by
      rw [hbytes, List.flatMap_cons, List.append_assoc]
    have hlength : f.bytes.size =
        before.length + ((p :: rest).flatMap Packet.bytes).length := by
      rw [← List.length_append, ← hbytes, Array.length_toList]
      rfl
    have hsmall : ∀ q ∈ p :: rest, q.bytes.length < 2 ^ 61 := by
      intro q hq
      have hle := length_le_of_mem hq
      omega
    obtain ⟨hdescribes, hend⟩ := describes_closed hsmall f.bytes.size before.length
      (p.discarded.toNat - lostSoFar) (before ++ p.bytes).length p.discarded.toNat
    rw [entries, ← List.length_append, PacketIndex.closeEnds] at hentries ⊢
    generalize (entries f.bytes.size (before ++ p.bytes).length p.discarded.toNat rest).head?.elim
      (p.entry before.length f.bytes.size (p.discarded.toNat - lostSoFar))
      (p.entry before.length f.bytes.size (p.discarded.toNat - lostSoFar)).closedBy = e
      at hdescribes hend hentries ⊢
    have hbuffer : (f.bytesOf e).data.toList = p.bytes := by
      have hnext : e.nextOffset = before.length + p.bytes.length := by
        rw [PacketEntry.nextOffset, PacketEntry.byteSize, hdescribes.offset_eq,
          hdescribes.packetSize, p.packetSize_eq]
        omega
      rw [StreamFile.bytesOf, hdescribes.offset_eq, hnext]
      exact Cursor.toList_extract hrest
    have hpacket := map_brief_packetResults hdescribes hbuffer (hsmall p List.mem_cons_self)
      (hid ▸ h.declared) (hsound p List.mem_cons_self) indexed.length (f.endBefore indexed.length)
    have hleft := ih hrest h.tail (fun q hq => hsound q (List.mem_cons_of_mem _ hq))
      (hentries.trans (List.append_cons _ _ _))
    have hplace : (indexed ++ [e]).length = indexed.length + 1 := List.length_append
    have hclosed : f.endBefore (indexed.length + 1) = some (p.closedEnd rest.head?) := by
      have hentry : f.index.entries[indexed.length]? = some e := by
        rw [← Array.getElem?_toList, hentries, List.getElem?_append_right (Nat.le_refl _),
          Nat.sub_self]
        rfl
      rw [StreamFile.endBefore, hentry, Option.map_some, hend]
    rw [hplace, hclosed, List.length_append] at hleft
    rw [List.zipIdx_cons, List.flatMap_cons, List.map_append, List.length_append, hleft, hpacket,
      ← List.map_append]
    rfl

/-- Reading undoes writing: the packets of a file are indexed with the offsets, the sizes, the times
and the targets that they are written with, and draining the file yields their events in order, each
packet's behind a record of the events that were lost before it. -/
theorem read_written {id : UInt32} {packets : List Packet} (h : Writable id packets)
    (policy : LostEventsPolicy) (path : String) :
    ∃ f, StreamFile.ofInput trace policy { path, content := .ok (file packets) } = .ok f ∧
      f.index.entries.toList.map outline = outlines 0 0 packets ∧
      (StreamReader.start f).drain.1.map (Except.map Event.brief) =
        (briefs 0 0 none packets).map .ok := by
  have hsmall : ∀ p ∈ packets, p.bytes.length < 2 ^ 61 := fun p hp =>
    Nat.lt_of_le_of_lt (length_le_of_mem hp) h.size_lt
  obtain ⟨f, hopen, hfile, hentries⟩ : ∃ f,
      StreamFile.ofInput trace policy { path, content := .ok (file packets) } = .ok f ∧
      f.bytes = file packets ∧
      f.index.entries.toList = PacketIndex.closeEnds (entries f.bytes.size 0 0 packets) := by
    obtain ⟨p, rest, rfl⟩ := List.exists_cons_of_ne_nil h.nonempty
    have hfilled : (file (p :: rest)).size ≠ 0 := by
      have hle : p.bytes.length ≤ (file (p :: rest)).size := length_le_of_mem List.mem_cons_self
      have hpreamble := p.length_preambleBytes
      rw [p.bytes_eq, List.length_append, List.length_append] at hle
      omega
    have hbytes : (file (p :: rest)).data.toList = [] ++ (p :: rest).flatMap Packet.bytes := rfl
    have hfound := found_entries hbytes h.size_lt h.follow policy
    exact ⟨_, StreamFile.ofInput_of_build rfl hfilled (PacketIndex.build_of_found hfound)
      (List.cons_ne_nil _ _), rfl, rfl⟩
  have hbytes : f.bytes.data.toList = [] ++ packets.flatMap Packet.bytes := by
    rw [hfile]
    rfl
  have hsize : f.bytes.size < 2 ^ 61 := by
    rw [hfile]
    exact h.size_lt
  refine ⟨f, hopen, ?_, ?_⟩
  · rw [hentries]
    exact map_outline_closeEnds hsmall _ _ _
  · rw [StreamReader.drain_eq_flatMap hopen, hentries]
    exact map_brief_flatMap hbytes hsize h.follow h.texts (hentries.trans (List.nil_append _).symm)

/-- Three packets: the first is open ended and padded, one event is lost before the second, and two
more are lost before the third, which has no events of its own. -/
def threePackets : List Packet :=
  [{ streamId := 1, timestampBegin := 5, timestampEnd := 18446744073709551615, discarded := 0,
     cpu := 2, records := [.tick 7 9, .note 8 "é"], padding := 3 },
   { streamId := 1, timestampBegin := 10, timestampEnd := 20, discarded := 1, cpu := 0,
     records := [.note 12 ""], padding := 0 },
   { streamId := 1, timestampBegin := 30, timestampEnd := 30, discarded := 3, cpu := 0,
     records := [], padding := 1 }]

theorem read_written_three :
    Writable 1 threePackets ∧
      ∃ f, StreamFile.ofInput trace .clamp
          { path := "stream", content := .ok (file threePackets) } = .ok f ∧
        f.index.entries.toList.map outline =
          [⟨0, 664, 688, 5, 10, 0, ⟨some "CPU2", 2⟩⟩, ⟨86, 520, 520, 10, 20, 1, ⟨some "CPU0", 0⟩⟩,
            ⟨151, 416, 424, 30, 30, 2, ⟨some "CPU0", 0⟩⟩] ∧
        (StreamReader.start f).drain.1.map (Except.map Event.brief) =
          [.ok ⟨1, 0, 7, ⟨some "CPU2", 2⟩, "tick", none, [("value", .integer 9)]⟩,
            .ok ⟨1, 0, 8, ⟨some "CPU2", 2⟩, "note", none, [("text", .string "é")]⟩,
            .ok ⟨1, 1, 10, ⟨some "CPU0", 0⟩, "Lost event", some 1,
              [("Lost events", .integer 1), ("duration", .integer 0)]⟩,
            .ok ⟨1, 1, 12, ⟨some "CPU0", 0⟩, "note", none, [("text", .string "")]⟩,
            .ok ⟨1, 2, 30, ⟨some "CPU0", 0⟩, "Lost event", some 2,
              [("Lost events", .integer 2), ("duration", .integer 10)]⟩] := by
  have hwritable : Writable 1 threePackets := by
    constructor
    · exact List.cons_ne_nil _ _
    · exact .inr rfl
    · decide
    · decide
    · decide
    · decide
    · simp [threePackets, Record.Sound]
    · decide +kernel
  obtain ⟨f, hopen, hindex, hdrain⟩ := read_written hwritable .clamp "stream"
  refine ⟨hwritable, f, hopen, hindex.trans ?_, hdrain⟩
  decide +kernel

end CommonTrace.Ticks
