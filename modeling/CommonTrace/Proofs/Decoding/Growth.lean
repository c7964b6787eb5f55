import CommonTrace.Proofs.Decoding.Effects

/-!
# More of a buffer

Decoding stays within the limit of its cursor. In a buffer that goes on where the limit was, it
decodes the same, and it fails in the same way unless it failed for want of bits; the tree of
scopes is the same one too.
-/
namespace CommonTrace

/-- Whether reading failed for want of bits. -/
def Error.IsOverrun : Error → Prop
  | bufferOverrun _ _ _ => True
  | _ => False

/-- A cursor at the same position as another, in a buffer that has all the bits that the other
may read, and a limit that is not before the other's. -/
structure Cursor.Extends (c d : Cursor) : Prop where
  position : d.position = c.position
  limit_le : c.limit ≤ d.limit
  same : Bits.SameBelow c.limit c.bytes d.bytes

namespace Decoding

variable {α β : Type} {fails : Error → Prop} {own : NodeId → Prop} {m : Decode α}
  {s s' : Decoding} {a : α} {e : Error} {d : Cursor}

namespace Steps

/-- Decoding stays within the limit. -/
theorem within (h : Steps fails own m) (s : Decoding) (hs : s.cursor.position ≤ s.cursor.limit) :
    (final (m s)).cursor.position ≤ s.cursor.limit := by
  induction h generalizing s with
  | pure a => exact hs
  | fail he => exact hs
  | position => exact hs
  | @read own α f hf =>
    unfold Decoding.read
    cases hread : f s.cursor with
    | error e => exact hs
    | ok result => exact hf.within hread hs
  | refer node path need select =>
    unfold Decoding.refer
    split
    · exact hs
    · exact hs
  | clear hi => exact hs
  | assign hi value => exact hs
  | enter hp name hbody ih => exact ih s.scopes.next ⟨s.cursor, _⟩ hs
  | @bind own α β m k hm hk ihm ihk =>
    have hfirst := ihm s hs
    have hlimit := (hm.notBefore s).2.1
    rw [bind_apply]
    cases hrun : m s with
    | error e s' => rwa [hrun] at hfirst
    | ok a s' =>
      rw [hrun, final_ok] at hfirst hlimit
      rw [← hlimit] at hfirst ⊢
      exact ihk a s' hfirst

/-- What is decoded up to the limit is decoded in a larger buffer as well. -/
theorem extends_ok (h : Steps fails own m) (hrun : m s = .ok a s')
    (hs : s.cursor.position ≤ s.cursor.limit) (hd : s.cursor.Extends d) :
    ∃ d', m ⟨d, s.scopes⟩ = .ok a ⟨d', s'.scopes⟩ ∧ s'.cursor.Extends d' := by
  have hwithin := h.within s hs
  have hafter := h.notBefore s
  rw [hrun, final_ok] at hwithin hafter
  obtain ⟨d', hd', hposition⟩ := h.bounded hrun hd.position (.inr hd.limit_le)
    (hd.same.mono hwithin)
  have hlarger := h.notBefore ⟨d, s.scopes⟩
  rw [hd', final_ok] at hlarger
  refine ⟨d', hd', hposition, ?_, ?_⟩
  · rw [hafter.2.1, hlarger.2.1]
    exact hd.limit_le
  · rw [hafter.2.1, hafter.1, hlarger.1]
    exact hd.same

/-- A failure that is not for want of bits occurs in any buffer that has the part passed before it
and a limit that is not before the one here, wherever the limits are. -/
theorem larger_error (h : Steps fails own m) (hrun : m s = .error e s')
    (hposition : d.position = s.cursor.position) (hlimit : s.cursor.limit ≤ d.limit)
    (hsame : Bits.SameBelow s'.cursor.position s.cursor.bytes d.bytes) (he : ¬e.IsOverrun) :
    ∃ d', m ⟨d, s.scopes⟩ = .error e ⟨d', s'.scopes⟩ := by
  induction h generalizing s s' d with
  | pure a => cases hrun
  | fail hfail =>
    cases hrun
    exact ⟨d, rfl⟩
  | position => cases hrun
  | @read own α f hf =>
    unfold Decoding.read at hrun
    split at hrun
    · cases hrun
    next e' hread =>
      cases hrun
      obtain ⟨_, _, _, rfl⟩ := hf.overruns hread
      exact absurd trivial he
  | refer node path need select =>
    unfold Decoding.refer at hrun ⊢
    split at hrun
    · cases hrun
    next hnone =>
      cases hrun
      refine ⟨d, ?_⟩
      dsimp only
      rw [hnone]
  | clear hi => cases hrun
  | assign hi value => cases hrun
  | @enter own α parent body hp name hbody ih =>
    rw [enter_apply] at hrun ⊢
    exact ih s.scopes.next hrun hposition hlimit hsame
  | @bind own α β m k hm hk ihm ihk =>
    rw [bind_apply] at hrun
    cases hfirst : m s with
    | error e' s₁ =>
      rw [hfirst] at hrun
      cases hrun
      obtain ⟨d', hd'⟩ := ihm hfirst hposition hlimit hsame
      exact ⟨d', by rw [bind_apply, hd']⟩
    | ok b s₁ =>
      rw [hfirst] at hrun
      dsimp only at hrun
      -- the part that has succeeded has passed no more than what is passed before the failure
      have hs₁ := hm.notBefore s
      have hs' := (hk b).notBefore s₁
      rw [hfirst, final_ok] at hs₁
      rw [hrun, final_error] at hs'
      obtain ⟨d₁, hd₁, hposition₁⟩ := hm.bounded hfirst hposition (.inr hlimit)
        (hsame.mono hs'.2.2)
      have hd := hm.notBefore ⟨d, s.scopes⟩
      rw [hd₁, final_ok] at hd
      obtain ⟨d', hd'⟩ := ihk b hrun hposition₁ (by rwa [hs₁.2.1, hd.2.1]) (by rwa [hs₁.1, hd.1])
      exact ⟨d', by rw [bind_apply, hd₁]; exact hd'⟩

/-- A failure that is not for want of bits occurs in a larger buffer as well. -/
theorem extends_error (h : Steps fails own m) (hrun : m s = .error e s')
    (hs : s.cursor.position ≤ s.cursor.limit) (hd : s.cursor.Extends d) (he : ¬e.IsOverrun) :
    ∃ d', m ⟨d, s.scopes⟩ = .error e ⟨d', s'.scopes⟩ := by
  have hwithin := h.within s hs
  rw [hrun, final_error] at hwithin
  exact h.larger_error hrun hd.position hd.limit_le (hd.same.mono hwithin) he

end Steps

end Decoding

end CommonTrace
