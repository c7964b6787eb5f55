import CommonTrace.Proofs.Decoding.Growth
import CommonTrace.Proofs.Packet.Source
import CommonTrace.Proofs.Stream.Independence

/-!
# Reachable readers

However a reader has been moved, by single steps or to a time, any packet of its file can be
opened next: its preamble is decoded from the packet's content as it was decoded for the index
from all that was left of the file. What is left to be read is always the end of what the file
yields from its start. There a packet fails nowhere but at an event, as its events are looked for
within its content.
-/
namespace CommonTrace

open Decoding

/-- Whether decoding an event can fail in this way. -/
def Error.IsOfEvent : Error → Prop
  | bufferOverrun _ _ _ => True
  | scopeResolution _ _ => True
  | variantSelection _ _ => True
  | unknownEventId _ => True
  | malformed (.emptyEvent _ _) => True
  | _ => False

theorem Error.IsDecoding.isOfEvent {e : Error} (h : e.IsDecoding) : e.IsOfEvent := by
  cases e <;> first | exact trivial | exact h.elim

namespace OpenPacket

variable {f : StreamFile} {p : OpenPacket} {streamClass : StreamClass} {cursor : Cursor}
  {scopes : ScopeTree} {s s' : Decoding} {event : Event} {e : Error}

/-- A packet fails nowhere but at one of its events. -/
theorem Belongs.failure (h : p.Belongs f) (he : .error e ∈ p.results streamClass scopes) :
    ∃ (q : OpenPacket) (cursor : Cursor) (s : Decoding), q.Belongs f ∧ q.place = p.place ∧
      q.nextEvent = .ok (some cursor) ∧
      q.decodeEvent streamClass ⟨cursor, scopes⟩ = .error e s := by
  fun_induction results streamClass scopes p with
  | case1 p e' hnext =>
    obtain ⟨cursor?, hnext', -⟩ := h.nextEvent
    cases hnext.symm.trans hnext'
  | case2 p hnext => cases he
  | case3 p cursor hnext e' s hrun =>
    cases List.mem_singleton.1 he
    exact ⟨p, cursor, s, h, rfl, hnext, hrun⟩
  | case4 p cursor hnext event s hrun hlt ih =>
    rcases List.mem_cons.1 he with heq | hmem
    · cases heq
    · exact ih (h.after hnext hrun) hmem

theorem isOfEvent_decodeEvent (h : p.decodeEvent streamClass s = .error e s') : e.IsOfEvent := by
  unfold decodeEvent consuming at h
  split at h
  · split at h
    · cases h
      exact trivial
    · cases h
  next e' s₁ hrun =>
    cases h
    rcases (steps_decodeParts streamClass p).error hrun with he | ⟨id, rfl⟩
    · exact he.isOfEvent
    · exact trivial

end OpenPacket

namespace StreamFile

variable {f : StreamFile} {place : Nat} {entry : PacketEntry} {preamble : Preamble}
  {fresh : ScopeTree} {p : OpenPacket} {e : Error}

/-- A failure that is met when the file is read from its start: an event of a packet cannot be
decoded into the tree of scopes that the packet's preamble has left. -/
structure EventFailure (f : StreamFile) (e : Error) : Prop where
  met : .error e ∈ (StreamReader.start f).drain.1
  occurs : ∃ (place : Nat) (entry : PacketEntry) (preamble : Preamble) (fresh : ScopeTree)
    (first p : OpenPacket) (cursor : Cursor) (s : Decoding),
    f.index.entries[place]? = some entry ∧ f.ReadsAlone place entry preamble fresh first ∧
      p.Belongs f ∧ p.place = place ∧ p.nextEvent = .ok (some cursor) ∧
      p.decodeEvent f.streamClass ⟨cursor, fresh⟩ = .error e s
  isOfEvent : e.IsOfEvent

/-- What all packets yield ends with what those from a place on yield. -/
theorem resultsFrom_suffix (f : StreamFile) (place : Nat) :
    f.resultsFrom place <:+ f.resultsFrom 0 := by
  induction place with
  | zero => exact List.suffix_refl _
  | succ place ih =>
    rcases Nat.lt_or_ge place f.index.entries.size with hlt | hge
    · rw [resultsFrom_eq hlt] at ih
      exact (List.suffix_append _ _).trans ih
    · rw [resultsFrom_end (Nat.le_succ_of_le hge)]
      exact List.nil_suffix

theorem Indexed.eventFailure (hf : f.Indexed) (he : .error e ∈ f.resultsFrom 0) :
    f.EventFailure e := by
  have hmet : .error e ∈ (StreamReader.start f).drain.1 := by
    rwa [StreamReader.drain_eq hf (StreamReader.pending_start f)]
  obtain ⟨⟨entry, place⟩, hentry, he⟩ := List.mem_flatMap.1 he
  rw [List.drop_zero, List.mk_mem_zipIdx_iff_getElem?, Array.getElem?_toList] at hentry
  dsimp only at he
  obtain ⟨preamble, fresh, first, hreads⟩ : ∃ preamble fresh first,
      f.ReadsAlone place entry preamble fresh first :=
    hf.readsAlone hentry
  rw [hreads.results] at he
  rcases List.mem_append.1 he with hmem | hmem
  · obtain ⟨record, -, heq⟩ := List.mem_map.1 hmem
    cases heq
  · obtain ⟨p, cursor, s, hp, hplace, hnext, hrun⟩ := (hreads.belongs hentry).failure hmem
    have hfirst : first.place = place := by rw [hreads.opened]; rfl
    exact ⟨hmet, ⟨place, entry, preamble, fresh, first, p, cursor, s, hentry, hreads, hp,
      hplace.trans hfirst, hnext, hrun⟩, OpenPacket.isOfEvent_decodeEvent hrun⟩

end StreamFile

namespace StreamReader

variable {f : StreamFile} {r r' : StreamReader} {timestamp : Nat} {e : Error}
  {rest : List (Except Error Event)}

theorem Pending.ready (h : Pending f r rest) : Ready f r := by
  cases h with
  | between h hpacket => exact h
  | within h hpacket hheld => exact h

/-- What holds between any two steps: what is left to be read is the end of what all packets
yield. -/
def Steady (f : StreamFile) (r : StreamReader) : Prop :=
  ∃ rest, Pending f r rest ∧ rest <:+ f.resultsFrom 0

theorem Steady.ready (h : Steady f r) : Ready f r := by
  obtain ⟨rest, hpending, -⟩ := h
  exact hpending.ready

theorem steady_start (f : StreamFile) : Steady f (start f) :=
  ⟨_, pending_start f, List.suffix_refl _⟩

/-- A reader can be moved to any place between packets. -/
theorem Steady.moved (h : Steady f r) (place : Nat) :
    Steady f { r with packet := none, nextPacket := place, current := none } :=
  ⟨_, .between ⟨h.ready.file, h.ready.base, h.ready.restores⟩ rfl, f.resultsFrom_suffix place⟩

theorem Steady.advance (hf : f.Indexed) (h : Steady f r) :
    Steady f r.advance.2 ∧ ∀ e, r.advance.1 = .error e → f.EventFailure e := by
  obtain ⟨rest, hpending, hsuffix⟩ := h
  have hspec := advance_spec hf hpending
  rcases hadvance : r.advance with ⟨out, r'⟩
  rw [hadvance] at hspec
  cases out with
  | error e =>
    obtain ⟨rest', rfl, hpending'⟩ := hspec
    refine ⟨⟨rest', hpending', (List.suffix_cons _ _).trans hsuffix⟩, fun e' he => ?_⟩
    cases he
    exact hf.eventFailure (hsuffix.mem List.mem_cons_self)
  | ok event? =>
    refine ⟨?_, nofun⟩
    cases event? with
    | none => exact ⟨[], hspec.2, List.nil_suffix⟩
    | some event =>
      obtain ⟨rest', rfl, hpending'⟩ := hspec
      exact ⟨rest', hpending', (List.suffix_cons _ _).trans hsuffix⟩

/-- The readers of a file that are reached from its start by steps and by moving to times. -/
inductive Reachable (f : StreamFile) : StreamReader → Prop
  | start : Reachable f (start f)
  | advance {r : StreamReader} (h : Reachable f r) : Reachable f r.advance.2
  | seek {r : StreamReader} (h : Reachable f r) (timestamp : Nat) :
      Reachable f (r.seek timestamp).2

/-- Skipping events is a number of steps, the last of which yields what is found. -/
theorem exists_advance_of_skipBefore {P : StreamReader → Prop}
    (hadvance : ∀ r, P r → P r.advance.2) (h : P r) :
    ∃ r', P r' ∧ r.skipBefore timestamp = r'.advance := by
  fun_induction skipBefore r timestamp with
  | case1 r event r' hstep hlt hbefore ih =>
    have hnext := hadvance r h
    rw [hstep] at hnext
    exact ih hnext
  | case2 r event r' hstep hlt hbefore => exact ⟨r, h, hstep.symm⟩
  | case3 r hother => exact ⟨r, h, rfl⟩

/-- Moving to a time ends with a step, too. -/
theorem exists_advance_of_seek (hf : f.Indexed) (h : Steady f r) (timestamp : Nat) :
    ∃ r', Steady f r' ∧ r.seek timestamp = r'.advance :=
  exists_advance_of_skipBefore (fun _ h => (h.advance hf).1) (h.moved _)

theorem Reachable.steady (hf : f.Indexed) (h : Reachable f r) : Steady f r := by
  induction h with
  | start => exact steady_start f
  | advance _ ih => exact (ih.advance hf).1
  | @seek r _ timestamp ih =>
    obtain ⟨r', hr', heq⟩ := exists_advance_of_seek hf ih timestamp
    rw [heq]
    exact (hr'.advance hf).1

/-- A reader can open the packet at a place. The preamble is decoded from the content of the packet
into the tree of scopes as it is then; its class is the one of the file, and the packet has its
context and is read on where the events of the entry start. -/
structure Loads (r : StreamReader) (place : Nat) (entry : PacketEntry) (preamble : Preamble) :
    Prop where
  decoded : ∃ s, Preamble.decode r.file.metadata entry.offset
    ⟨entry.cursor (r.file.bytesOf entry), r.scopes.rewind r.base⟩ = .ok preamble s
  streamClass : preamble.streamClass = r.file.streamClass
  opened : ∃ p t, r.file.openPacket r.base r.scopes place entry = (.ok p, t) ∧
    p.position = entry.payloadStart ∧ p.context = preamble.context

/-- The preamble that an entry was made of is the one that any reader finds. -/
theorem Ready.loads {policy : LostEventsPolicy} {place : Nat} {entry : PacketEntry}
    {preamble : Preamble} (hf : f.Indexed) (h : Ready f r) (he : entry ∈ f.index.entries)
    (hmade : entry.MadeOf f.metadata policy f.bytes preamble) :
    r.Loads place entry preamble := by
  obtain ⟨rfl, hbase, hrestores⟩ := h
  have hfits := (hf.describes entry he).toFits
  obtain ⟨lostSoFar, timestampEnd, hentry⟩ := hmade.made
  have hoffset : entry.offset ≤ r.file.bytes.size := by
    have := hfits.within
    omega
  obtain ⟨-, -, -, hpayload⟩ := PacketEntry.ofContext_eq_ok hoffset hentry
  obtain ⟨s, hrun⟩ := hmade.decoded
  obtain ⟨cursor, hcontent⟩ := hfits.decode hrun hpayload.symm
  obtain ⟨preamble', s', hrun', -, hclass⟩ := hf.decode he
  cases hcontent.symm.trans hrun'
  -- what the reader has decoded before is not seen
  have hseen : Decoding.Alike ⟨entry.cursor (r.file.bytesOf entry), r.file.metadata.baseScopes⟩
      ⟨entry.cursor (r.file.bytesOf entry), r.scopes.rewind r.base⟩ :=
    ⟨rfl, hbase ▸ hrestores.clean.alike.symm⟩
  obtain ⟨t, ht, -⟩ := ((Preamble.steps_decode r.file.metadata _).alike hseen).ok hcontent
  refine ⟨⟨t, ht⟩, hclass, preamble.opened place entry (r.file.bytesOf entry) t.scopes.checkpoint,
    t.scopes, ?_, hpayload.symm, rfl⟩
  unfold StreamFile.openPacket
  dsimp only
  rw [ht]
  dsimp only
  rw [if_pos (congrArg StreamClass.id hclass)]

/-- However a reader of a file has been moved, it can open every packet of the file, and finds the
preamble that the packet's entry was made of: the class, the context and the start of the events
are the same. So a step, and moving to a time, fail only as decoding an event does. -/
theorem loads_of_reachable {metadata : Metadata} {policy : LostEventsPolicy} {input : Input}
    (h : StreamFile.ofInput metadata policy input = .ok f) (hr : Reachable f r) :
    r.file = f ∧
      (∀ place entry, f.index.entries[place]? = some entry →
        ∃ preamble, entry.MadeOf metadata policy f.bytes preamble ∧ r.Loads place entry preamble) ∧
      (∀ e, r.advance.1 = .error e → f.EventFailure e) ∧
      ∀ timestamp e, (r.seek timestamp).1 = .error e → f.EventFailure e := by
  obtain ⟨hf, -, -⟩ := StreamFile.ofInput_eq_ok h
  obtain ⟨rfl, -, hbuild⟩ := StreamFile.build_of_ofInput h
  have hsteady := hr.steady hf
  refine ⟨hsteady.ready.file, fun place entry hentry => ?_, (hsteady.advance hf).2,
    fun timestamp e he => ?_⟩
  · have hmem := Array.mem_of_getElem? hentry
    obtain ⟨preamble, hmade⟩ :=
      PacketIndex.sourced_of_build hbuild entry (Array.mem_toList_iff.2 hmem)
    exact ⟨preamble, hmade, hsteady.ready.loads hf hmem hmade⟩
  · obtain ⟨r', hr', heq⟩ := exists_advance_of_seek hf hsteady timestamp
    rw [heq] at he
    exact (hr'.advance hf).2 e he

/-- A trace whose packets tell the size of their content, in bits, and whose events are bytes. -/
def contentTrace : Metadata :=
  let byte : IntegerType := .byte
  let context : StructType :=
    ⟨.byte, [("content_size", .integer byte), ("packet_size", .integer byte)]⟩
  let fields : StructType := ⟨.byte, [("value", .integer byte)]⟩
  let event : EventClass := { id := 0, name := "byte", fields := some fields }
  { byteOrder := .little,
    streams := [{ id := 0, packetContext := some context, events := [event] }] }

/-- A file of one packet, the content of which ends within the second event. -/
def contentInput : Input := { path := "stream", content := .ok ⟨#[28, 32, 1, 2]⟩ }

theorem loads_of_reachable_content :
    ∃ f r, StreamFile.ofInput contentTrace .clamp contentInput = .ok f ∧ Reachable f r ∧
      (∃ entry preamble, f.index.entries[0]? = some entry ∧
        entry.MadeOf contentTrace .clamp f.bytes preamble ∧ r.Loads 0 entry preamble) ∧
      ∃ e, r.advance.1 = .error e ∧ f.EventFailure e := by
  have hrun : (StreamFile.ofInput contentTrace .clamp contentInput).toOption.map (fun f =>
      (f.index.entries[0]?.isSome, (start f).advance.2.advance.1.toOption.isNone)) =
        some (true, true) := by
    decide +kernel
  obtain ⟨f, h, hrun⟩ := exists_eq_ok hrun
  obtain ⟨hfirst, hfails⟩ := Prod.mk.inj hrun
  have hr : Reachable f (start f).advance.2 := .advance .start
  obtain ⟨-, hloads, hfailure, -⟩ := loads_of_reachable h hr
  obtain ⟨entry, hentry⟩ := Option.isSome_iff_exists.1 hfirst
  obtain ⟨preamble, hmade, hload⟩ := hloads 0 entry hentry
  refine ⟨f, (start f).advance.2, h, hr, ⟨entry, preamble, hentry, hmade, hload⟩, ?_⟩
  cases hout : (start f).advance.2.advance.1 with
  | error e => exact ⟨e, rfl, hfailure e hout⟩
  | ok event? =>
    rw [hout] at hfails
    cases hfails

end StreamReader

end CommonTrace
