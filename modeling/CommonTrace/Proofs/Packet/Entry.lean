import CommonTrace.Packet.Index
import CommonTrace.Packet.Indexing

/-!
# What an entry promises

An entry is made of fields that the writer of the file has chosen at will. Whatever they
are, an entry that is accepted describes a packet that lies within the file, with its
content within the packet and its events within the content, and that does not end before
it begins. This stays so when an end that was not known is set to the begin of the packet
after it.
-/
namespace CommonTrace

namespace PacketEntry

/-- The packet lies within a file of the given size, its content within the packet and its
events within the content, and it does not end before it begins. -/
structure Fits (e : PacketEntry) (fileSize : Nat) : Prop where
  payload_le : e.payloadStart ≤ e.contentSize
  content_le : e.contentSize ≤ e.packetSize
  within : 8 * e.offset + e.packetSize ≤ 8 * fileSize
  ends : e.timestampBegin ≤ e.timestampEnd

variable {e last next : PacketEntry} {offset streamId payloadStart fileSize lostSoFar : Nat}
  {context : List (String × Value)} {policy : LostEventsPolicy} {error : Error}

theorem Fits.nextOffset_le (h : e.Fits fileSize) : e.nextOffset ≤ fileSize := by
  have := h.within
  unfold nextOffset byteSize
  omega

theorem lostBefore_eq_error {counter : Option Nat}
    (h : lostBefore offset counter lostSoFar policy = .error error) :
    policy = .error ∧ ∃ n < lostSoFar, error = .inconsistentLostEvents offset n lostSoFar := by
  unfold lostBefore at h
  cases counter with
  | none => cases h
  | some n =>
    dsimp only at h
    split at h
    · cases h
    next hlt =>
      cases policy with
      | clamp => cases h
      | error =>
        cases h
        exact ⟨rfl, n, Nat.lt_of_not_le hlt, rfl⟩

theorem ofContext_eq_ok (hle : offset ≤ fileSize)
    (h : ofContext offset streamId payloadStart context fileSize lostSoFar policy = .ok e) :
    e.Fits fileSize ∧ e.offset = offset ∧ e.streamId = streamId ∧
      e.payloadStart = payloadStart := by
  unfold ofContext at h
  extract_lets attributes unsigned? remaining contentSize packetSize timestampBegin timestampEnd
    eventsDiscarded record checkEnds checkWithin at h
  split at h
  · cases h
  next hsizes =>
    dsimp only [checkWithin] at h
    split at h
    · cases h
    next hwithin =>
      dsimp only [checkEnds] at h
      split at h
      · cases h
      next hends =>
        dsimp only [record] at h
        cases hlost : lostBefore offset eventsDiscarded lostSoFar policy with
        | error e' =>
          rw [hlost] at h
          cases h
        | ok lostEvents =>
          rw [hlost] at h
          cases h
          have hremaining : remaining = (fileSize - offset) * 8 := rfl
          rw [not_or, Nat.not_lt, Nat.not_lt] at hsizes
          refine ⟨⟨hsizes.1, hsizes.2, ?_, Nat.le_of_not_lt hends⟩, rfl, rfl, rfl⟩
          show 8 * offset + packetSize ≤ 8 * fileSize
          omega

theorem ofContext_eq_error
    (h : ofContext offset streamId payloadStart context fileSize lostSoFar policy =
      .error error) :
    error.isTrailing ∨ policy = .error ∧
      ∃ counter < lostSoFar, error = .inconsistentLostEvents offset counter lostSoFar := by
  unfold ofContext at h
  extract_lets attributes unsigned? remaining contentSize packetSize timestampBegin timestampEnd
    eventsDiscarded record checkEnds checkWithin at h
  split at h
  · cases h
    exact .inl rfl
  · dsimp only [checkWithin] at h
    split at h
    · cases h
      exact .inl rfl
    · dsimp only [checkEnds] at h
      split at h
      · cases h
        exact .inl rfl
      · dsimp only [record] at h
        cases hlost : lostBefore offset eventsDiscarded lostSoFar policy with
        | error e' =>
          rw [hlost] at h
          cases h
          exact .inr (lostBefore_eq_error hlost)
        | ok lostEvents =>
          rw [hlost] at h
          cases h

/-- An entry after which another one has been found: an end that was not known is where the
other one begins. -/
def closedBy (last next : PacketEntry) : PacketEntry :=
  if last.isOpenEnded then { last with timestampEnd := next.timestampBegin } else last

/-- Nothing but the end of an entry depends on the one after it. -/
theorem closedBy_eq (last next : PacketEntry) :
    ∃ timestampEnd, last.closedBy next = { last with timestampEnd } := by
  unfold closedBy
  split
  · exact ⟨_, rfl⟩
  · exact ⟨last.timestampEnd, rfl⟩

theorem Fits.closedBy (h : last.Fits fileSize) (hle : last.timestampBegin ≤ next.timestampBegin) :
    (last.closedBy next).Fits fileSize := by
  unfold PacketEntry.closedBy
  split
  · exact ⟨h.payload_le, h.content_le, h.within, hle⟩
  · exact h

end PacketEntry

end CommonTrace
