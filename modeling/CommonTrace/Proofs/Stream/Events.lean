import CommonTrace.Proofs.Decoding.Growth
import CommonTrace.Proofs.Stream.Indexed

/-!
# The events of a packet

The content of a packet is read back to back: the first event starts where the packet is read on,
and every other one where the one before it ended. An event takes at least one bit and does not end
behind the content. Reading stops at the first event that cannot be decoded, or else where the
content ends. All that an event takes from those before it is where it starts and their last time.
-/
namespace CommonTrace.OpenPacket

open Decoding

variable {f : StreamFile} {p : OpenPacket} {streamClass : StreamClass} {cursor : Cursor}
  {scopes : ScopeTree} {s : Decoding} {event : Event} {events : List Event}
  {failure : Option Error}

/-- A packet of a file: its entry is the one at its place in the index, its bytes are those of the
file, and what is to be read next starts within its content. -/
structure Belongs (p : OpenPacket) (f : StreamFile) : Prop where
  entry : f.index.entries[p.place]? = some p.entry
  bytes : p.bytes = f.bytesOf p.entry
  position_le : p.position ≤ (p.entry.cursor p.bytes).limit

/-- The next event of a packet is looked for within the packet's content. -/
theorem Belongs.nextEvent (h : p.Belongs f) : ∃ cursor?, p.nextEvent = .ok cursor? ∧
    ∀ cursor, cursor? = some cursor →
      cursor.limit = (p.entry.cursor p.bytes).limit ∧ cursor.position ≤ cursor.limit := by
  unfold OpenPacket.nextEvent Cursor.seek
  rw [dif_pos h.position_le]
  refine ⟨_, rfl, fun cursor hcursor => ?_⟩
  split at hcursor
  · cases hcursor
  · cases hcursor
    exact ⟨rfl, h.position_le⟩

/-- Decoding an event stays within the content. -/
theorem Belongs.after (h : p.Belongs f) (hnext : p.nextEvent = .ok (some cursor))
    (hrun : p.decodeEvent streamClass ⟨cursor, scopes⟩ = .ok event s) :
    (p.after event s.cursor.position).Belongs f := by
  obtain ⟨cursor?, hnext', hwithin⟩ := h.nextEvent
  cases hnext.symm.trans hnext'
  obtain ⟨hlimit, hle⟩ := hwithin cursor rfl
  have hstays := (steps_decodeParts streamClass p).within ⟨cursor, scopes⟩ hle
  have hfinal : final (p.decodeEvent streamClass ⟨cursor, scopes⟩) =
      final (decodeParts streamClass p ⟨cursor, scopes⟩) := final_consuming
  rw [← hfinal, hrun, final_ok] at hstays
  exact ⟨h.entry, h.bytes, hlimit ▸ hstays⟩

/-- The content of a packet of an indexed file may be read up to its end. -/
theorem Belongs.limit_eq (hf : f.Indexed) (h : p.Belongs f) :
    (p.entry.cursor p.bytes).limit = p.entry.contentSize := by
  have hfits := (hf.describes p.entry (Array.mem_of_getElem? h.entry)).toFits
  have hcontent : p.entry.contentSize ≤ 8 * (f.bytesOf p.entry).size := by
    have := hfits.content_le
    rw [StreamFile.bytesOf, hfits.size_extract, PacketEntry.byteSize]
    omega
  rw [h.bytes]
  exact Nat.min_eq_left hcontent

/-- A cursor from which the next event of a packet is decoded: it is in the bytes of the packet,
where the packet is read on, and may go up to the end of the content, which is not reached. -/
structure Starts (p : OpenPacket) (cursor : Cursor) : Prop where
  next : p.nextEvent = .ok (some cursor)
  bytes : cursor.bytes = p.bytes
  position : cursor.position = p.position
  limit : cursor.limit = p.entry.contentSize
  left : p.position < p.entry.contentSize

theorem Belongs.starts (hf : f.Indexed) (h : p.Belongs f)
    (hnext : p.nextEvent = .ok (some cursor)) : p.Starts cursor := by
  obtain ⟨hposition, hleft⟩ := nextEvent_eq_some hnext
  refine ⟨hnext, ?_, hposition, ?_, hleft⟩
  · unfold OpenPacket.nextEvent Cursor.seek at hnext
    rw [dif_pos h.position_le] at hnext
    dsimp only at hnext
    split at hnext
    · cases hnext
    · cases hnext
      rfl
  · obtain ⟨cursor?, hnext', hwithin⟩ := h.nextEvent
    cases hnext.symm.trans hnext'
    exact (hwithin cursor rfl).1.trans (h.limit_eq hf)

/-- There is something to read exactly where the content has not ended. -/
theorem Belongs.nextEvent_cases (hf : f.Indexed) (h : p.Belongs f) :
    (p.nextEvent = .ok none ∧ p.position = p.entry.contentSize) ∨ ∃ cursor, p.Starts cursor := by
  obtain ⟨cursor?, hnext, -⟩ := h.nextEvent
  cases cursor? with
  | some cursor => exact .inr ⟨cursor, h.starts hf hnext⟩
  | none =>
    refine .inl ⟨hnext, ?_⟩
    have hle := h.position_le
    have hlimit := h.limit_eq hf
    unfold OpenPacket.nextEvent Cursor.seek at hnext
    rw [dif_pos hle] at hnext
    dsimp only at hnext
    split at hnext
    next hzero =>
      have hend : (p.entry.cursor p.bytes).limit - p.position = 0 := hzero
      omega
    next => cases hnext

/-- An event of a packet, decoded into a tree of scopes from the bits up to `last`. -/
structure Spans (p : OpenPacket) (streamClass : StreamClass) (scopes : ScopeTree) (event : Event)
    (last : Nat) : Prop where
  decoded : ∃ (cursor : Cursor) (s : Decoding), p.Starts cursor ∧
    p.decodeEvent streamClass ⟨cursor, scopes⟩ = .ok event s ∧ s.cursor.position = last
  lt : p.position < last
  le : last ≤ p.entry.contentSize

theorem Belongs.spans (hf : f.Indexed) (h : p.Belongs f) (hstarts : p.Starts cursor)
    (hrun : p.decodeEvent streamClass ⟨cursor, scopes⟩ = .ok event s) :
    p.Spans streamClass scopes event s.cursor.position where
  decoded := ⟨cursor, s, hstarts, hrun, rfl⟩
  lt := hstarts.position ▸ position_lt_of_consuming hrun
  le := by
    rw [← h.limit_eq hf]
    exact (h.after hstarts.next hrun).position_le

/-- The events that are read back to back from where a packet is read on, each of them decoded into
the same tree of scopes, and the failure at which reading stops if the content does not end there.
What an event leaves to the next one is where it ended and its time. -/
inductive BackToBack (streamClass : StreamClass) (scopes : ScopeTree) :
    OpenPacket → List Event → Option Error → Prop
  | ended {p : OpenPacket} (ended : p.position = p.entry.contentSize) :
      BackToBack streamClass scopes p [] none
  | failed {p : OpenPacket} {cursor : Cursor} {e : Error} {s : Decoding} (starts : p.Starts cursor)
      (fails : p.decodeEvent streamClass ⟨cursor, scopes⟩ = .error e s) :
      BackToBack streamClass scopes p [] (some e)
  | event {p : OpenPacket} {event : Event} {last : Nat} {events : List Event}
      {failure : Option Error} (span : p.Spans streamClass scopes event last)
      (rest : BackToBack streamClass scopes
        { p with position := last, timestamp := event.timestamp } events failure) :
      BackToBack streamClass scopes p (event :: events) failure

/-- The results of a packet are its events, back to back, and the failure behind them. -/
theorem Belongs.backToBack (hf : f.Indexed) (h : p.Belongs f) (streamClass : StreamClass)
    (scopes : ScopeTree) : ∃ events failure, p.BackToBack streamClass scopes events failure ∧
      p.results streamClass scopes = events.map .ok ++ failure.toList.map .error := by
  fun_induction results streamClass scopes p with
  | case1 p e hnext =>
    obtain ⟨cursor?, hnext', -⟩ := h.nextEvent
    cases hnext.symm.trans hnext'
  | case2 p hnext =>
    rcases h.nextEvent_cases hf with ⟨-, hend⟩ | ⟨cursor, hstarts⟩
    · exact ⟨[], none, .ended hend, rfl⟩
    · cases hnext.symm.trans hstarts.next
  | case3 p cursor hnext e s hrun => exact ⟨[], some e, .failed (h.starts hf hnext) hrun, rfl⟩
  | case4 p cursor hnext event s hrun hlt ih =>
    obtain ⟨events, failure, hrest, hresults⟩ := ih (h.after hnext hrun)
    refine ⟨event :: events, failure, .event (h.spans hf (h.starts hf hnext) hrun) hrest, ?_⟩
    rw [hresults]
    rfl

/-- There are no more events, with the failure behind them, than bits of content. -/
theorem BackToBack.length_le (h : p.BackToBack streamClass scopes events failure) :
    events.length + failure.toList.length ≤ p.entry.contentSize - p.position := by
  induction h with
  | ended ended => exact Nat.zero_le _
  | failed starts fails =>
    have := starts.left
    simp only [List.length_nil, Option.toList_some, List.length_singleton]
    omega
  | event span rest ih =>
    have := span.lt
    have := span.le
    rw [List.length_cons]
    dsimp only at ih
    omega

end CommonTrace.OpenPacket
