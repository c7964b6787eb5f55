import CommonTrace.Proofs.Packet.Growing

/-!
# What entries are made of

Every entry of an index has been made of the preamble at its offset, as it is decoded from all
that is left of the file there. What is added to the index later changes nothing of an entry but
its end.
-/
namespace CommonTrace

open Decoding

variable {metadata : Metadata} {policy : LostEventsPolicy} {file : ByteArray}

/-- An entry made of the preamble at its offset, which is decoded from all that is left of the
file into a tree that holds the constants of the environment alone. The end of the entry may have
been set since. -/
structure PacketEntry.MadeOf (e : PacketEntry) (metadata : Metadata) (policy : LostEventsPolicy)
    (file : ByteArray) (preamble : Preamble) : Prop where
  decoded : ∃ s, Preamble.decode metadata e.offset
    ⟨.ofBytes (file.extract e.offset file.size), metadata.baseScopes⟩ = .ok preamble s
  made : ∃ lostSoFar timestampEnd, PacketEntry.ofContext e.offset preamble.streamClass.id
    preamble.payloadStart preamble.fields file.size lostSoFar policy = .ok { e with timestampEnd }

theorem PacketEntry.MadeOf.closedBy {last next : PacketEntry} {preamble : Preamble}
    (h : last.MadeOf metadata policy file preamble) :
    (last.closedBy next).MadeOf metadata policy file preamble := by
  obtain ⟨timestampEnd, heq⟩ := last.closedBy_eq next
  rw [heq]
  exact ⟨h.decoded, h.made⟩

namespace Metadata

variable {offset lostSoFar : Nat} {scopes t t' : ScopeTree} {preamble : Preamble}
  {entry : PacketEntry} {streamClass : StreamClass}

theorem preambleInRest_eq_ok (h : preambleInRest metadata file offset t = .ok preamble t') :
    ∃ s, Preamble.decode metadata offset ⟨.ofBytes (file.extract offset file.size), t⟩ =
      .ok preamble s := by
  unfold preambleInRest at h
  split at h
  next preamble' s hrun =>
    cases h
    exact ⟨s, hrun⟩
  · cases h

theorem entryInRest_eq_ok
    (h : metadata.entryInRest policy file offset lostSoFar t = .ok (entry, streamClass) t') :
    ∃ preamble, metadata.preambleInRest file offset t = .ok preamble t' ∧
      PacketEntry.ofContext offset preamble.streamClass.id preamble.payloadStart preamble.fields
        file.size lostSoFar policy = .ok entry := by
  rw [entryInRest_apply] at h
  split at h
  · cases h
  next preamble t₁ hrest =>
    split at h
    · cases h
    next entry' hentry =>
      cases h
      exact ⟨preamble, hrest, hentry⟩

/-- The entry found at an offset, whatever window it was found in and whatever was decoded
before. -/
theorem madeOf_of_entryAt (hlt : offset < file.size) (h : metadata.Restores scopes)
    (hrun : metadata.entryAt policy file offset hlt lostSoFar
      (scopes.rewind metadata.baseScopes.checkpoint) = .ok (entry, streamClass) t') :
    ∃ preamble, entry.MadeOf metadata policy file preamble := by
  have hclean := h.clean
  obtain ⟨t₁, hrest, -⟩ :=
    (entryAt_agree hlt hclean.restoresPoint.linked hclean.alike).ok hrun
  obtain ⟨preamble, hpreamble, hentry⟩ := entryInRest_eq_ok hrest
  obtain ⟨t₂, halone, -⟩ := (preambleInRest_congr file offset hclean.alike).ok hpreamble
  obtain rfl := (PacketEntry.ofContext_eq_ok (Nat.le_of_lt hlt) hentry).2.1
  exact ⟨preamble, preambleInRest_eq_ok halone, lostSoFar, entry.timestampEnd, hentry⟩

end Metadata

namespace PacketIndex

variable {base : ScopeCheckpoint} {p p' : Progress} {more : Bool} {index : PacketIndex}

/-- A step leaves the index as it is or adds the entry that has been found. -/
theorem index_of_step {hlt : p.offset < file.size}
    (h : step metadata policy file base p hlt = .ok (p', more)) :
    p'.index = p.index ∨ ∃ entry streamClass scopes,
      metadata.entryAt policy file p.offset hlt p.lostSoFar (p.scopes.rewind base) =
        .ok (entry, streamClass) scopes ∧ p.index.append entry = .ok p'.index := by
  unfold step at h
  dsimp only at h
  rw [bind_apply] at h
  have hfailure {e : Error} {scopes : ScopeTree} (h : p.afterFailure e scopes = .ok (p', more)) :
      p'.index = p.index := by
    unfold Progress.afterFailure at h
    split at h
    · cases h
      rfl
    · cases h
  cases hrun : metadata.entryAt policy file p.offset hlt p.lostSoFar (p.scopes.rewind base) with
  | error e scopes =>
    rw [hrun] at h
    exact .inl (hfailure h)
  | ok found scopes =>
    rw [hrun] at h
    dsimp only at h
    cases hcheck : checkClass p.streamClass p.offset found with
    | error e =>
      rw [hcheck] at h
      exact .inl (hfailure h)
    | ok found' =>
      rw [hcheck] at h
      obtain ⟨rfl, -⟩ := checkClass_eq_ok hcheck
      replace h : p.afterPacket found'.1 found'.2 scopes = .ok (p', more) := h
      unfold Progress.afterPacket at h
      dsimp only at h
      split at h
      · cases h
        exact .inl rfl
      · split at h
        · cases h
        next index happend =>
          cases h
          exact .inr ⟨_, _, scopes, rfl, happend⟩

/-- Whether all entries so far have been made of preambles of the file. -/
def Sourced (metadata : Metadata) (policy : LostEventsPolicy) (file : ByteArray)
    (index : PacketIndex) : Prop :=
  ∀ e ∈ index.entries.toList, ∃ preamble, e.MadeOf metadata policy file preamble

theorem sourced_of_step {hlt : p.offset < file.size} (hp : p.Valid metadata file)
    (hsourced : p.index.Sourced metadata policy file)
    (h : step metadata policy file metadata.baseScopes.checkpoint p hlt = .ok (p', more)) :
    p'.index.Sourced metadata policy file := by
  rcases index_of_step h with hsame | ⟨entry, streamClass, scopes, hrun, happend⟩
  · rw [hsame]
    exact hsourced
  · refine forall_append happend hsourced (Metadata.madeOf_of_entryAt hlt hp.restores hrun) ?_
    rintro e ⟨preamble, he⟩ -
    exact ⟨preamble, he.closedBy⟩

theorem sourced_of_buildFrom (hp : p.Valid metadata file)
    (hsourced : p.index.Sourced metadata policy file)
    (h : buildFrom metadata policy file metadata.baseScopes.checkpoint p = .ok p') :
    p'.index.Sourced metadata policy file := by
  fun_induction buildFrom metadata policy file metadata.baseScopes.checkpoint p with
  | case1 p hlt e hstep => cases h
  | case2 p hlt p₁ hstep =>
    cases h
    exact sourced_of_step hp hsourced hstep
  | case3 p hlt p₁ hstep hmore ih =>
    have hspec := @step_spec metadata policy file p hp hlt
    rw [hstep] at hspec
    exact ih hspec (sourced_of_step hp hsourced hstep) h
  | case4 p hge =>
    cases h
    exact hsourced

/-- The entries of an index are made of preambles of the file. -/
theorem sourced_of_build {streamClass : Option StreamClass}
    (h : build metadata policy file = .ok (index, streamClass)) :
    index.Sourced metadata policy file := by
  rw [build_eq] at h
  cases hrun : buildFrom metadata policy file metadata.baseScopes.checkpoint
    (.start metadata) with
  | error e =>
    rw [hrun] at h
    cases h
  | ok p =>
    rw [hrun] at h
    cases h
    exact sourced_of_buildFrom (valid_start metadata file) (fun e he => by cases he) hrun

end PacketIndex

end CommonTrace
