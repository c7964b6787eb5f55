import CommonTrace.Proofs.Packet.Preamble
import CommonTrace.Stream.Packet

/-!
# Packets read on their own

What a packet yields when nothing else is read: its preamble is decoded into a tree that
holds the constants of the environment alone, and each of its events into the tree that
the preamble has left. All that an event takes from those before it is where it starts
and the time from which its own is reconstructed.
-/
namespace CommonTrace

open Decoding

variable {α : Type} {fails : Error → Prop} {own : NodeId → Prop} {m : Decode α}
  {fault : α → Error} {s s' t : Decoding}

namespace Decoding

theorem final_consuming : final (consuming fault m s) = final (m s) := by
  unfold consuming
  split
  next a s' hrun =>
    rw [hrun]
    split <;> rfl
  next e s' hrun => rw [hrun]

theorem eq_ok_of_consuming {a : α} (h : consuming fault m s = .ok a s') : m s = .ok a s' := by
  unfold consuming at h
  split at h
  next a' s₁ hrun =>
    split at h
    · cases h
    · cases h
      exact hrun
  · cases h

theorem alike_consuming (h : Steps fails own m) (hst : s.Alike t) :
    ResultAlike (consuming fault m s) (consuming fault m t) := by
  unfold consuming
  cases hs : m s with
  | error e s' =>
    obtain ⟨t', ht, hst'⟩ := (h.alike hst).error hs
    rw [ht]
    exact ⟨rfl, hst'⟩
  | ok a s' =>
    obtain ⟨t', ht, hst'⟩ := (h.alike hst).ok hs
    rw [ht]
    dsimp only
    rw [hst.1, hst'.1]
    split
    · exact ⟨rfl, hst'⟩
    · exact ⟨rfl, hst'⟩

end Decoding

namespace OpenPacket

variable {streamClass : StreamClass} {p : OpenPacket} {scopes scopes' : ScopeTree}

/-- The nodes below which an event is decoded. -/
def eventRoots (i : NodeId) : Prop :=
  ∃ scope ∈ [DynamicScope.eventHeader, .streamEventContext, .eventContext, .eventFields],
    i = ScopeTree.root scope

theorem steps_decodeParts (streamClass : StreamClass) (p : OpenPacket) :
    Steps (fun e => ∃ id, e = .unknownEventId id) eventRoots (decodeParts streamClass p) := by
  have hsection (type : Option StructType) {scope : DynamicScope}
      (h : scope ∈ [DynamicScope.eventHeader, .streamEventContext, .eventContext, .eventFields]) :
      Steps (fun e => ∃ id, e = .unknownEventId id) eventRoots (Preamble.section? type scope) :=
    Preamble.steps_section? type ⟨scope, h, rfl⟩
  unfold decodeParts
  refine (hsection _ (by simp)).bind fun header => ?_
  dsimp only
  refine (Preamble.steps_lift fun e he => ?_).bind fun eventClass => ?_
  · unfold classOf at he
    dsimp only at he
    split at he
    · cases he
    · cases he
      exact ⟨_, rfl⟩
  · refine (hsection _ (by simp)).bind fun streamContext => ?_
    refine (hsection _ (by simp)).bind fun context => ?_
    exact (hsection _ (by simp)).bind fun fields => .pure _

/-- An event is made of its sections, which are decoded one after the other. Its class and its time
are told by the header. -/
theorem decodeEvent_eq_ok {event : Event} (h : p.decodeEvent streamClass s = .ok event s') :
    ∃ header eventClass streamContext context fields s₁ s₂ s₃,
      Preamble.section? streamClass.eventHeader .eventHeader s = .ok header s₁ ∧
      classOf streamClass ((header.map headerFields).getD (none, none)).1 = .ok eventClass ∧
      Preamble.section? streamClass.eventContext .streamEventContext s₁ = .ok streamContext s₂ ∧
      Preamble.section? eventClass.context .eventContext s₂ = .ok context s₃ ∧
      Preamble.section? eventClass.fields .eventFields s₃ = .ok fields s' ∧
      event =
        { streamId := streamClass.id
          timestamp :=
            match ((header.map headerFields).getD (none, none)).2 with
            | some (type, value) =>
              reconstructTimestamp p.timestamp (Value.pattern value) type.size
            | none => p.timestamp
          packet := p.place
          target := p.entry.target
          packetContext := p.context
          body := .decoded eventClass header streamContext context fields } := by
  have hrun := eq_ok_of_consuming h
  unfold decodeParts at hrun
  obtain ⟨header, s₁, hheader, hrun⟩ := bind_eq_ok hrun
  dsimp only at hrun
  obtain ⟨eventClass, _, hlift, hrun⟩ := bind_eq_ok hrun
  obtain ⟨hclass, rfl⟩ := Preamble.lift_eq_ok hlift
  obtain ⟨streamContext, s₂, hstream, hrun⟩ := bind_eq_ok hrun
  obtain ⟨context, s₃, hcontext, hrun⟩ := bind_eq_ok hrun
  obtain ⟨fields, s₄, hfields, hrun⟩ := bind_eq_ok hrun
  cases hrun
  exact ⟨header, eventClass, streamContext, context, fields, s₁, s₂, s₃, hheader, hclass, hstream,
    hcontext, hfields, rfl⟩

/-- The same event is decoded into trees that look alike. -/
theorem alike_decodeEvent (streamClass : StreamClass) (p : OpenPacket) (c : Cursor)
    (h : scopes.Alike scopes') :
    ResultAlike (p.decodeEvent streamClass ⟨c, scopes⟩) (p.decodeEvent streamClass ⟨c, scopes'⟩) :=
  alike_consuming (steps_decodeParts streamClass p) ⟨rfl, h⟩

/-- An event, decoded or not, changes no node but those of its own sections. -/
theorem edits_decodeEvent (streamClass : StreamClass) (p : OpenPacket) (s : Decoding) :
    s.scopes.Edits eventRoots (final (p.decodeEvent streamClass s)).scopes := by
  unfold decodeEvent
  rw [final_consuming]
  exact (steps_decodeParts streamClass p).edits s

/-- The results of reading the events of a packet back to back, each of them into the same
tree of scopes. A failure is the last of them. -/
def results (streamClass : StreamClass) (scopes : ScopeTree) (p : OpenPacket) :
    List (Except Error Event) :=
  match hnext : p.nextEvent with
  | .error e => [.error e]
  | .ok none => []
  | .ok (some cursor) =>
    match hrun : p.decodeEvent streamClass ⟨cursor, scopes⟩ with
    | .error e _ => [.error e]
    | .ok event s =>
      have : (p.after event s.cursor.position).bitsLeft < p.bitsLeft := by
        obtain ⟨hposition, hlt⟩ := nextEvent_eq_some hnext
        have := position_lt_of_consuming hrun
        simp only [bitsLeft, after]
        dsimp only at this
        omega
      .ok event :: results streamClass scopes (p.after event s.cursor.position)
termination_by p.bitsLeft

theorem results_of_end (h : p.nextEvent = .ok none) : p.results streamClass scopes = [] := by
  unfold results
  split
  next e hnext => cases h.symm.trans hnext
  next hnext => rfl
  next cursor hnext => cases h.symm.trans hnext

theorem results_of_lost_place {e : Error} (h : p.nextEvent = .error e) :
    p.results streamClass scopes = [.error e] := by
  unfold results
  split
  next e' hnext =>
    cases h.symm.trans hnext
    rfl
  next hnext => cases h.symm.trans hnext
  next cursor hnext => cases h.symm.trans hnext

theorem results_of_failure {cursor : Cursor} {e : Error} (h : p.nextEvent = .ok (some cursor))
    (hrun : p.decodeEvent streamClass ⟨cursor, scopes⟩ = .error e s) :
    p.results streamClass scopes = [.error e] := by
  unfold results
  split
  next e' hnext => cases h.symm.trans hnext
  next hnext => cases h.symm.trans hnext
  next cursor' hnext =>
    cases h.symm.trans hnext
    split
    next e' s' hrun' =>
      cases hrun.symm.trans hrun'
      rfl
    next event s' hrun' => cases hrun.symm.trans hrun'

theorem results_of_event {cursor : Cursor} {event : Event} (h : p.nextEvent = .ok (some cursor))
    (hrun : p.decodeEvent streamClass ⟨cursor, scopes⟩ = .ok event s) :
    p.results streamClass scopes =
      .ok event :: (p.after event s.cursor.position).results streamClass scopes := by
  generalize hrest : (p.after event s.cursor.position).results streamClass scopes = rest
  unfold results
  split
  next e' hnext => cases h.symm.trans hnext
  next hnext => cases h.symm.trans hnext
  next cursor' hnext =>
    cases h.symm.trans hnext
    split
    next e' s' hrun' => cases hrun.symm.trans hrun'
    next event' s' hrun' =>
      cases hrun.symm.trans hrun'
      rw [hrest]

/-- What is read depends neither on when the nodes of the tree were bound nor on the point
that the reader remembers. -/
theorem results_congr (h : scopes.Alike scopes') (point : ScopeCheckpoint) :
    ({ p with point } : OpenPacket).results streamClass scopes' =
      p.results streamClass scopes := by
  fun_induction results streamClass scopes p with
  | case1 p e hnext => exact results_of_lost_place hnext
  | case2 p hnext => exact results_of_end hnext
  | case3 p cursor hnext e s hrun =>
    obtain ⟨t, ht, -⟩ := (alike_decodeEvent _ _ cursor h).error hrun
    exact results_of_failure hnext ht
  | case4 p cursor hnext event s hrun hlt ih =>
    obtain ⟨t, ht, hst⟩ := (alike_decodeEvent _ _ cursor h).ok hrun
    have hresults := @results_of_event t streamClass { p with point } scopes' cursor event hnext ht
    rw [hresults, ← hst.1]
    exact congrArg _ ih

/-- A record of lost events is there where events were lost. -/
theorem isSome_lostRecord? {order : ByteOrder} {streamId : Nat} {endBefore : Option Nat} :
    (p.lostRecord? order streamId endBefore).isSome ↔ 0 < p.entry.lostEvents := by
  unfold lostRecord?
  split
  next h => simp [h]
  next h => simpa using Nat.pos_of_ne_zero h

end OpenPacket

/-- What a packet yields on its own: the record of the events lost before it, if there are
any, and its events. It is made of the metadata, the bytes of the packet, its entry, and the
end of the packet before it, if there is one. -/
def Metadata.packetResults (metadata : Metadata) (place : Nat) (entry : PacketEntry)
    (bytes : ByteArray) (endBefore : Option Nat) : List (Except Error Event) :=
  match Preamble.decode metadata entry.offset ⟨entry.cursor bytes, metadata.baseScopes⟩ with
  | .error e _ => [.error e]
  | .ok preamble s =>
    let p := preamble.opened place entry bytes s.scopes.checkpoint
    ((p.lostRecord? metadata.byteOrder preamble.streamClass.id endBefore).toList.map .ok)
      ++ p.results preamble.streamClass s.scopes

end CommonTrace
