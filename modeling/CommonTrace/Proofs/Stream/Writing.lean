import CommonTrace.Proofs.Lexical.Running
import CommonTrace.Proofs.Packet.Writing
import CommonTrace.Proofs.Stream.Independence

/-!
# Reading back what was written

The events of a packet are read back one after the other from the bytes that were written for them,
up to the end of the content. What is behind the content is not read.
-/
namespace CommonTrace

open Decoding

theorem Value.pattern_of_lt {n : Nat} (h : n < 2 ^ 64) : pattern (n : Int) = n := by
  show ((n : Int) % (18446744073709551616 : Nat)).toNat = n
  omega

/-- A field of at least 64 bits holds the whole time. -/
theorem reconstructTimestamp_of_le {last value bits : Nat} (h : 64 ≤ bits) :
    reconstructTimestamp last value bits = value :=
  if_pos h

/-- A field of fewer bits holds a low part, which is read as of the turn of the time before, or of
the next turn. -/
theorem reconstructTimestamp_of_narrow {last value bits : Nat} (h : bits < 64) :
    reconstructTimestamp last value bits =
      if last - last % 2 ^ bits + value % 2 ^ bits < last then
        (last - last % 2 ^ bits + value % 2 ^ bits + 2 ^ bits) % 2 ^ 64
      else last - last % 2 ^ bits + value % 2 ^ bits :=
  if_neg (Nat.not_le.2 h)

/-- The low part of a time tells all of it, if it is less than one turn of the field after the time
before it. -/
theorem reconstructTimestamp_of_lt {last time bits : Nat} (hlast : last ≤ time)
    (hturn : time < last + 2 ^ bits) (hlt : time < 2 ^ 64) :
    reconstructTimestamp last (time % 2 ^ bits) bits = time := by
  by_cases hwide : 64 ≤ bits
  · have hpow : 2 ^ 64 ≤ 2 ^ bits := Nat.pow_le_pow_right (by decide) hwide
    rw [reconstructTimestamp_of_le hwide, Nat.mod_eq_of_lt (by omega)]
  · rw [reconstructTimestamp_of_narrow (Nat.lt_of_not_le hwide), Nat.mod_mod]
    -- the time is in the same turn of the field as the one before it, or in the next turn
    have hpos : 0 < 2 ^ bits := Nat.two_pow_pos bits
    have hlastTurn := Nat.div_add_mod last (2 ^ bits)
    have htimeTurn := Nat.div_add_mod time (2 ^ bits)
    have hsame : last / 2 ^ bits ≤ time / 2 ^ bits := Nat.div_le_div_right hlast
    have hnext : time / 2 ^ bits ≤ last / 2 ^ bits + 1 := by
      rw [← Nat.add_div_right _ hpos]
      exact Nat.div_le_div_right (Nat.le_of_lt hturn)
    have hlow := Nat.mod_lt time hpos
    generalize 2 ^ bits = turn at *
    obtain heq | heq : time / turn = last / turn ∨ time / turn = last / turn + 1 := by omega
    · rw [heq] at htimeTurn
      rw [if_neg (by omega)]
      omega
    · rw [heq, Nat.mul_succ] at htimeTurn
      have hlastLow := Nat.mod_lt last hpos
      rw [if_pos (by omega), Nat.mod_eq_of_lt (by omega)]
      omega

/-- What a reader sees of an event: where it belongs, its time, its name, how many events it records
as lost, if it is a record of lost events, and its scalar fields. -/
structure Event.Brief where
  streamId : Nat
  packet : Nat
  timestamp : Nat
  target : Target
  name : String
  lostEvents? : Option Nat
  fields : List (String × AttributeValue)
  deriving DecidableEq, Repr

/-- The brief of an event. -/
def Event.brief (e : Event) : Brief where
  streamId := e.streamId
  packet := e.packet
  timestamp := e.timestamp
  target := e.target
  name := e.name
  lostEvents? := e.lostEvents?
  fields := ((e.fields?.bind Value.fields?).getD []).filterMap fun (name, value) =>
    (AttributeValue.ofValue? value).map fun scalar => (name, scalar)

namespace OpenPacket

variable {streamClass : StreamClass} {scopes : ScopeTree} {p : OpenPacket}
  {bytes rest : List UInt8}

/-- A packet whose next event starts at a byte, and of whose content some bytes are left. -/
structure Faces (p : OpenPacket) (bytes : List UInt8) : Prop where
  split : ∃ before after, p.bytes.data.toList = before ++ bytes ++ after ∧
    p.position = 8 * before.length ∧ p.entry.contentSize = 8 * (before.length + bytes.length)

/-- The cursor at the next event has the bytes that are left ahead of it. -/
theorem Faces.seek (h : p.Faces bytes) :
    ∃ cursor, (p.entry.cursor p.bytes).seek p.position = .ok cursor ∧
      cursor.position = p.position ∧ cursor.Ahead bytes := by
  obtain ⟨before, after, hbytes, hposition, hcontent⟩ := h.split
  have hsize : before.length + bytes.length ≤ p.bytes.size := by
    have hlength := congrArg List.length hbytes
    rw [Array.length_toList, List.length_append, List.length_append] at hlength
    have hdata : p.bytes.data.size = p.bytes.size := rfl
    omega
  have hlimit : (p.entry.cursor p.bytes).limit = 8 * (before.length + bytes.length) := by
    show min p.entry.contentSize (8 * p.bytes.size) = _
    omega
  unfold Cursor.seek
  rw [dif_pos (by omega)]
  exact ⟨_, rfl, rfl, Cursor.ahead_of_append hbytes hposition hlimit⟩

/-- Nothing is read of a packet of which nothing is left. -/
theorem Faces.results_nil (h : p.Faces []) : p.results streamClass scopes = [] := by
  obtain ⟨cursor, hseek, hposition, hahead⟩ := h.seek
  have hlimit := hahead.limit
  have hremaining : cursor.remaining = 0 := by
    rw [Cursor.remaining, hlimit, List.length_nil]
    omega
  apply results_of_end
  unfold nextEvent
  rw [hseek]
  dsimp only
  rw [if_pos hremaining]

/-- The first of the events that are left is read from the bytes that were written for it. -/
theorem Faces.results_cons {events : Event → Prop} (h : p.Faces (bytes ++ rest))
    (hbytes : bytes ≠ [])
    (htakes : Takes (decodeParts streamClass p) scopes (p.position / 8) bytes events) :
    ∃ event, events event ∧
      p.results streamClass scopes =
        .ok event ::
          (p.after event (p.position + 8 * bytes.length)).results streamClass scopes ∧
      (p.after event (p.position + 8 * bytes.length)).Faces rest := by
  obtain ⟨before, after, hsplit, hposition, hcontent⟩ := h.split
  obtain ⟨cursor, hseek, hstart, hahead⟩ := h.seek
  have hlength : 0 < bytes.length := List.length_pos_iff.2 hbytes
  have hlimit := hahead.limit
  rw [List.length_append] at hlimit
  obtain ⟨event, cursor', t', hrun, hevents, hposition', -⟩ := htakes cursor rest (by omega) hahead
  have hnext : p.nextEvent = .ok (some cursor) := by
    unfold nextEvent
    rw [hseek]
    dsimp only
    rw [if_neg (by rw [Cursor.remaining]; omega)]
  have hevent : p.decodeEvent streamClass ⟨cursor, scopes⟩ = .ok event ⟨cursor', t'⟩ := by
    unfold decodeEvent Decoding.consuming
    rw [hrun]
    dsimp only
    rw [if_neg (by omega)]
  have hafter : cursor'.position = p.position + 8 * bytes.length := by omega
  refine ⟨event, hevents, ?_, ⟨before ++ bytes, after, ?_, ?_, ?_⟩⟩
  · rw [results_of_event hnext hevent, hafter]
  · show p.bytes.data.toList = before ++ bytes ++ rest ++ after
    rw [hsplit, List.append_assoc before bytes rest]
  · rw [List.length_append]
    show p.position + 8 * bytes.length = _
    omega
  · rw [List.length_append] at hcontent ⊢
    show p.entry.contentSize = _
    omega

/-- An event is decoded from its header, which names its class and its time, and its fields. -/
theorem takes_parts {first id : Nat} {t : ScopeTree} {headerBytes : List UInt8}
    {fields : List (String × Written)} {eventClass : EventClass} {type : IntegerType} {value : Int}
    (hheader : Takes (Preamble.section? streamClass.eventHeader .eventHeader) t first headerBytes
      fun header => (header.map headerFields).getD (none, none) = (some id, some (type, value)))
    (hclass : classOf streamClass (some id) = .ok eventClass)
    (hstreamContext : streamClass.eventContext = none) (hcontext : eventClass.context = none)
    (hfields : eventClass.fields = some (Written.sectionType fields))
    (hsound : ∀ f ∈ fields, f.2.Sound) :
    Takes (decodeParts streamClass p) t first (headerBytes ++ Written.allBytes fields) fun event =>
      event.brief =
        { streamId := streamClass.id, packet := p.place,
          timestamp := reconstructTimestamp p.timestamp (Value.pattern value) type.size,
          target := p.entry.target, name := eventClass.name, lostEvents? := none,
          fields := Written.scalars fields } := by
  unfold decodeParts
  refine hheader.bind fun header t hnames => ?_
  rw [hnames]
  dsimp only
  refine (Decodes.lift hclass).andThen fun t => ?_
  rw [hstreamContext, hcontext, hfields]
  refine Decodes.noSection.andThen fun t => Decodes.noSection.andThen fun t => ?_
  refine (Written.decodes_section hsound .eventFields _ t).before fun t => ?_
  refine (Decodes.pure _).imp ?_
  rintro _ rfl
  rw [← Written.filterMap_values (first + headerBytes.length) fields]
  rfl

end OpenPacket

/-- A packet yields a record of the events lost before it, if there are any, and then what is read
of its events from the bytes behind its preamble. -/
theorem Metadata.packetResults_of_decodes {metadata : Metadata} {e : PacketEntry}
    {buffer : ByteArray} {preambleBytes payload after : List UInt8} {preamble : Preamble}
    (hbuffer : buffer.data.toList = preambleBytes ++ payload ++ after)
    (hcontent : e.contentSize = 8 * (preambleBytes.length + payload.length))
    (hstart : preamble.payloadStart = 8 * preambleBytes.length)
    (hdecodes : Decodes (Preamble.decode metadata e.offset) metadata.baseScopes 0 preambleBytes
      preamble)
    (place : Nat) (endBefore : Option Nat) :
    ∃ scopes, Lexical.Mirrored scopes ∧
      (preamble.opened place e buffer scopes.checkpoint).Faces payload ∧
      metadata.packetResults place e buffer endBefore =
        ((preamble.opened place e buffer scopes.checkpoint).lostRecord? metadata.byteOrder
          preamble.streamClass.id endBefore).toList.map .ok ++
        (preamble.opened place e buffer scopes.checkpoint).results preamble.streamClass scopes := by
  have hsize : buffer.size = (preambleBytes ++ payload ++ after).length := by
    rw [← hbuffer, Array.length_toList]
    rfl
  have hwithin : e.contentSize ≤ 8 * buffer.size := by
    rw [hcontent, hsize, List.length_append, List.length_append]
    omega
  have hsplit : (e.cursor buffer).bytes.data.toList = [] ++ (preambleBytes ++ payload) ++ after :=
    hbuffer
  have hahead : (e.cursor buffer).Ahead (preambleBytes ++ payload) := by
    refine Cursor.ahead_of_append hsplit rfl ?_
    rw [List.length_nil, Nat.zero_add, List.length_append, ← hcontent]
    exact Nat.min_eq_left hwithin
  obtain ⟨_, c', t', hrun, rfl, -⟩ := hdecodes (e.cursor buffer) payload rfl hahead
  refine ⟨t', (Lexical.mirrored_baseScopes metadata).decode hrun, ?_, ?_⟩
  · exact ⟨preambleBytes, after, hbuffer, hstart, hcontent⟩
  · unfold packetResults
    rw [hrun]

/-- A file that is indexed is opened. -/
theorem StreamFile.ofInput_of_build {metadata : Metadata} {policy : LostEventsPolicy}
    {input : Input} {bytes : ByteArray} {index : PacketIndex} {streamClass : StreamClass}
    (hcontent : input.content = .ok bytes) (hsize : bytes.size ≠ 0)
    (hbuild : PacketIndex.build metadata policy bytes = .ok (index, some streamClass))
    (hentries : index.entries.toList ≠ []) :
    ofInput metadata policy input =
      .ok { path := input.path, bytes, metadata, streamClass, index } := by
  have hfilled : index.entries.isEmpty = false := by
    simpa using hentries
  unfold ofInput
  rw [hcontent]
  show (if bytes.size = 0 then _ else _) = _
  rw [if_neg hsize, hbuild]
  show (if index.entries.isEmpty then _ else _) = _
  rw [hfilled]
  rfl

end CommonTrace
