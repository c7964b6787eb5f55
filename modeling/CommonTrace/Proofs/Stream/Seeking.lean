import CommonTrace.Proofs.Stream.Repositioning

/-!
# Moving to a time

Where the packets of a file end in order and no event is after the end of its packet, moving to a
time is the same as reading from the start and leaving out the events before that time: all events
of the packets that the search passes over are among those. It makes no difference how the reader
has been moved before.
-/
namespace CommonTrace

open Decoding

namespace OpenPacket

variable {p : OpenPacket} {streamClass : StreamClass} {scopes : ScopeTree} {s s' : Decoding}
  {event record : Event} {order : ByteOrder} {streamId : Nat} {endBefore : Option Nat}

/-- What an event is made of that is decoded from a packet. -/
theorem event_of_decodeEvent (h : p.decodeEvent streamClass s = .ok event s') :
    ∃ eventClass header streamContext context fields,
      event.body = .decoded eventClass header streamContext context fields ∧
        event.packet = p.place ∧
        event.timestamp =
          match ((header.map headerFields).getD (none, none)).2 with
          | some (type, value) => reconstructTimestamp p.timestamp (Value.pattern value) type.size
          | none => p.timestamp := by
  obtain ⟨header, eventClass, streamContext, context, fields, -, -, -, -, -, -, -, -, rfl⟩ :=
    decodeEvent_eq_ok h
  exact ⟨eventClass, header, streamContext, context, fields, rfl, rfl, rfl⟩

/-- An event knows the place of its packet, and is not a record of lost events. -/
theorem packet_decodeEvent (h : p.decodeEvent streamClass s = .ok event s') :
    event.packet = p.place ∧ event.lostEvents? = none := by
  obtain ⟨_, _, _, _, _, hbody, hpacket, -⟩ := event_of_decodeEvent h
  exact ⟨hpacket, by rw [Event.lostEvents?, hbody]⟩

theorem packet_lostRecord? (h : p.lostRecord? order streamId endBefore = some record) :
    record.packet = p.place := by
  unfold lostRecord? at h
  split at h
  · cases h
  · cases h
    rfl

theorem packet_of_mem_results (h : .ok event ∈ p.results streamClass scopes) :
    event.packet = p.place ∧ event.lostEvents? = none := by
  fun_induction results streamClass scopes p with
  | case1 p e hnext => simp at h
  | case2 p hnext => simp at h
  | case3 p cursor hnext e s hrun => simp at h
  | case4 p cursor hnext event' s hrun hlt ih =>
    rcases List.mem_cons.1 h with heq | hmem
    · cases heq
      exact packet_decodeEvent hrun
    · exact ih hmem

end OpenPacket

namespace StreamFile

variable {f : StreamFile} {place : Nat} {entry : PacketEntry} {event : Event}

theorem packet_of_mem_resultsOf (h : .ok event ∈ f.resultsOf place entry) :
    event.packet = place := by
  unfold resultsOf Metadata.packetResults at h
  split at h
  · simp at h
  · rcases List.mem_append.1 h with hmem | hmem
    · obtain ⟨record, hrecord, heq⟩ := List.mem_map.1 hmem
      cases heq
      exact OpenPacket.packet_lostRecord? (Option.mem_toList.1 hrecord)
    · exact (OpenPacket.packet_of_mem_results hmem).1

/-- What all packets yield begins with what those before a place yield. -/
theorem exists_resultsFrom_zero (f : StreamFile) (hplace : place ≤ f.index.entries.size) :
    ∃ before, f.resultsFrom 0 = before ++ f.resultsFrom place ∧
      ∀ event, .ok event ∈ before → event.packet < place := by
  induction place with
  | zero => exact ⟨[], rfl, fun event hmem => absurd hmem List.not_mem_nil⟩
  | succ place ih =>
    obtain ⟨before, hbefore, hplaces⟩ := ih (Nat.le_of_succ_le hplace)
    refine ⟨before ++ f.resultsOf place f.index.entries[place], ?_, fun event hmem => ?_⟩
    · rw [hbefore, resultsFrom_eq hplace, List.append_assoc]
    · rcases List.mem_append.1 hmem with hmem | hmem
      · exact Nat.lt_succ_of_lt (hplaces event hmem)
      · rw [packet_of_mem_resultsOf hmem]
        exact Nat.lt_succ_self place

end StreamFile

namespace StreamReader

variable {f : StreamFile} {r r' : StreamReader} {left : List Event} {timestamp : Nat}

/-- Where only events are left, a step yields the first of them and leaves the others. -/
theorem advance_of_pending (hf : f.Indexed) (h : Pending f r (left.map .ok)) :
    r.advance.1 = .ok left.head? ∧ Pending f r.advance.2 (left.tail.map .ok) := by
  obtain ⟨hout, hpending⟩ := advance_eq_firstOf hf h
  rw [firstOf_map_ok] at hout
  rw [← List.map_tail] at hpending
  exact ⟨hout, hpending⟩

/-- What the steps of a reader from now on yield, counted from zero. -/
def outcome (r : StreamReader) : Nat → Outcome
  | 0 => r.advance.1
  | n + 1 => r.advance.2.outcome n

theorem outcome_of_pending (hf : f.Indexed) (h : Pending f r (left.map .ok)) (n : Nat) :
    r.outcome n = .ok left[n]? := by
  induction n generalizing r left with
  | zero =>
    obtain ⟨hout, -⟩ := advance_of_pending hf h
    rw [outcome, hout, List.head?_eq_getElem?]
  | succ n ih =>
    obtain ⟨-, hpending⟩ := advance_of_pending hf h
    rw [outcome, ih hpending, List.getElem?_tail]

/-- Skipping leaves out the events before a time at the start of what is left. -/
theorem skipBefore_of_pending (hf : f.Indexed) (h : Pending f r (left.map .ok)) :
    (r.skipBefore timestamp).1 =
        .ok (left.dropWhile fun event => event.timestamp < timestamp).head? ∧
      Pending f (r.skipBefore timestamp).2
        ((left.dropWhile fun event => event.timestamp < timestamp).tail.map .ok) := by
  obtain ⟨hout, hpending⟩ := @skipBefore_eq_firstOf f r _ timestamp hf h
  rw [dropWhile_map_ok, firstOf_map_ok] at hout
  rw [dropWhile_map_ok, ← List.map_tail] at hpending
  exact ⟨hout, hpending⟩

/-- A file in which events can be found by their time: reading it from its start meets no failure,
its packets end in order, and no event is after the end of its packet. -/
structure Timely (f : StreamFile) : Prop where
  unfailing : (start f).Unfailing
  inOrder : f.index.EndsInOrder
  within : ∀ event ∈ events (start f).drain.1, ∀ entry,
    f.index.entries[event.packet]? = some entry → event.timestamp ≤ entry.timestampEnd

/-- The events of a file, read from its start, without those at first that are before a time. -/
def eventsFrom (f : StreamFile) (timestamp : Nat) : List Event :=
  (events (start f).drain.1).dropWhile fun event => event.timestamp < timestamp

/-- All events from a time on are in the packet that the search finds and those after it. -/
theorem eventsFrom_eq (hf : f.Indexed) (h : Timely f) (timestamp : Nat) :
    ∃ left : List Event, left.map .ok = f.resultsFrom (f.index.found timestamp) ∧
      eventsFrom f timestamp = left.dropWhile fun event => event.timestamp < timestamp := by
  obtain ⟨hunfailing, hinOrder, hwithin⟩ := h
  obtain ⟨before, hsplit, hplaces⟩ :=
    f.exists_resultsFrom_zero (f.index.boundary_found timestamp).le_size
  have hdrain : (start f).drain.1 = before ++ f.resultsFrom (f.index.found timestamp) :=
    (drain_eq hf (pending_start f)).trans hsplit
  unfold Unfailing at hunfailing
  rw [hdrain] at hunfailing hwithin
  refine ⟨events (f.resultsFrom (f.index.found timestamp)), map_ok_events fun e he => ?_, ?_⟩
  · exact hunfailing e (List.mem_append_right _ he)
  · unfold eventsFrom
    rw [hdrain, events_append, List.dropWhile_append_of_pos]
    intro event hevent
    -- an event of a packet that the search passes over is not after the end of that packet
    have hplace := hplaces event (mem_events.1 hevent)
    have hsize : event.packet < f.index.entries.size :=
      Nat.lt_of_lt_of_le hplace (f.index.boundary_found timestamp).le_size
    have hentry := Array.getElem?_eq_getElem hsize
    have hend := hinOrder.before_found hplace hentry
    have hle := hwithin event (by rw [events_append]; exact List.mem_append_left _ hevent) _ hentry
    exact decide_eq_true (Nat.lt_of_le_of_lt hle hend)

/-- Moving to a time yields the first event that is left when the file is read from its start and
the events before that time are skipped, and the steps after it yield the others, and then the end
of the stream. It makes no difference how the reader has been moved before. -/
theorem seek_of_reachable {metadata : Metadata} {policy : LostEventsPolicy} {input : Input}
    (h : StreamFile.ofInput metadata policy input = .ok f) (htimely : Timely f)
    (hr : Reachable f r) (timestamp : Nat) :
    (r.seek timestamp).1 = .ok (eventsFrom f timestamp).head? ∧
      ∀ n, (r.seek timestamp).2.outcome n = .ok (eventsFrom f timestamp).tail[n]? := by
  obtain ⟨hf, -, -⟩ := StreamFile.ofInput_eq_ok h
  obtain ⟨hfile, hbase, hrestores⟩ := (hr.steady hf).ready
  obtain ⟨left, hleft, heq⟩ := eventsFrom_eq hf htimely timestamp
  have hpending : Pending f { r with packet := none, nextPacket := f.index.found timestamp,
                                     current := none } (left.map .ok) := by
    rw [hleft]
    exact .between ⟨hfile, hbase, hrestores⟩ rfl
  obtain ⟨hout, hafter⟩ := @skipBefore_of_pending f _ left timestamp hf hpending
  rw [heq]
  subst hfile
  exact ⟨hout, outcome_of_pending hf hafter⟩

/-- A trace with times: those of a packet in its context, and that of an event in its header. -/
def timedTrace : Metadata :=
  let byte : IntegerType := .byte
  let context : StructType :=
    ⟨.byte, [("packet_size", .integer byte), ("timestamp_begin", .integer byte),
      ("timestamp_end", .integer byte)]⟩
  let header : StructType := ⟨.byte, [("timestamp", .integer byte)]⟩
  { byteOrder := .little,
    streams := [{ id := 0, packetContext := some context, eventHeader := some header,
                  events := [{ id := 0, name := "tick" }] }] }

/-- A file of two packets with two events each, at the times 2, 4, 7 and 9. -/
def timedInput : Input :=
  { path := "stream", content := .ok ⟨#[40, 1, 5, 2, 4, 40, 6, 9, 7, 9]⟩ }

/-- The reader is moved past all packets first, and then back into the first one. -/
theorem seek_of_reachable_timed :
    ∃ f r, StreamFile.ofInput timedTrace .clamp timedInput = .ok f ∧ Timely f ∧ Reachable f r ∧
      (eventsFrom f 3).map (·.timestamp) = [4, 7, 9] ∧
      (r.seek 3).1 = .ok (eventsFrom f 3).head? ∧
      ∀ n, (r.seek 3).2.outcome n = .ok (eventsFrom f 3).tail[n]? := by
  have hrun : (StreamFile.ofInput timedTrace .clamp timedInput).toOption.map (fun f =>
      (decide f.index.EndsInOrder, (start f).drain.1.all (·.toOption.isSome),
        (events (start f).drain.1).all (fun event =>
          f.index.entries[event.packet]?.all (event.timestamp ≤ ·.timestampEnd)),
        (eventsFrom f 3).map (·.timestamp))) =
        some (true, true, true, [4, 7, 9]) := by
    decide +kernel
  obtain ⟨f, h, hrun⟩ := exists_eq_ok hrun
  obtain ⟨hinOrder, hrun⟩ := Prod.mk.inj hrun
  obtain ⟨hunfailing, hrun⟩ := Prod.mk.inj hrun
  obtain ⟨hwithin, htimes⟩ := Prod.mk.inj hrun
  have htimely : Timely f := by
    refine ⟨fun e he => ?_, of_decide_eq_true hinOrder, fun event hevent entry hentry => ?_⟩
    · cases List.all_eq_true.1 hunfailing _ he
    · have := List.all_eq_true.1 hwithin event hevent
      rw [hentry, Option.all_some] at this
      exact of_decide_eq_true this
  have hr : Reachable f ((start f).seek 10).2 := .seek .start 10
  obtain ⟨hout, hafter⟩ := seek_of_reachable h htimely hr 3
  exact ⟨f, _, h, htimely, hr, htimes, hout, hafter⟩

end StreamReader

end CommonTrace
