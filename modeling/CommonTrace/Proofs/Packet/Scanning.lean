import CommonTrace.Proofs.Packet.Described
import CommonTrace.Proofs.Packet.Source

/-!
# Scanning a file

What a packet is found to be is decided by the bytes from its start on and by the last counter of
discarded events. The tree of scopes that the packets before it have left plays no part in it: so
indexing a file is a scan in which every packet is decoded on its own.
-/
namespace CommonTrace

open Decoding

variable {metadata : Metadata} {policy : LostEventsPolicy} {file : ByteArray}

namespace Metadata

variable {offset lostSoFar : Nat} {scopes t t' : ScopeTree} {preamble : Preamble}
  {entry : PacketEntry} {streamClass : StreamClass} {e : Error}

/-- The preamble at an offset, decoded on its own from all that is left of the file. -/
def preambleAlone (metadata : Metadata) (file : ByteArray) (offset : Nat) : Except Error Preamble :=
  yielded (metadata.preambleInRest file offset metadata.baseScopes)

/-- The entry and the stream class of the packet at an offset, decoded on its own. -/
def entryAlone (metadata : Metadata) (policy : LostEventsPolicy) (file : ByteArray)
    (offset lostSoFar : Nat) : Except Error (PacketEntry × StreamClass) := do
  let preamble ← metadata.preambleAlone file offset
  let entry ← PacketEntry.ofContext offset preamble.streamClass.id preamble.payloadStart
    preamble.fields file.size lostSoFar policy
  return (entry, preamble.streamClass)

theorem entryAlone_of_preamble (h : metadata.preambleAlone file offset = .ok preamble) :
    metadata.entryAlone policy file offset lostSoFar =
      (PacketEntry.ofContext offset preamble.streamClass.id preamble.payloadStart preamble.fields
        file.size lostSoFar policy).map (·, preamble.streamClass) := by
  unfold entryAlone
  rw [h]
  dsimp only [bind, Except.bind]
  cases PacketEntry.ofContext offset preamble.streamClass.id preamble.payloadStart preamble.fields
    file.size lostSoFar policy with
  | error e => rfl
  | ok entry => rfl

theorem entryAlone_eq_ok
    (h : metadata.entryAlone policy file offset lostSoFar = .ok (entry, streamClass)) :
    ∃ preamble, metadata.preambleAlone file offset = .ok preamble ∧
      preamble.streamClass = streamClass ∧
      PacketEntry.ofContext offset preamble.streamClass.id preamble.payloadStart preamble.fields
        file.size lostSoFar policy = .ok entry := by
  cases hpreamble : metadata.preambleAlone file offset with
  | error e =>
    unfold entryAlone at h
    rw [hpreamble] at h
    cases h
  | ok preamble =>
    rw [entryAlone_of_preamble hpreamble] at h
    cases hentry : PacketEntry.ofContext offset preamble.streamClass.id preamble.payloadStart
      preamble.fields file.size lostSoFar policy with
    | error e =>
      rw [hentry] at h
      cases h
    | ok entry' =>
      rw [hentry] at h
      cases h
      exact ⟨preamble, rfl, rfl, hentry⟩

theorem yielded_entryInRest (scopes : ScopeTree) :
    yielded (metadata.entryInRest policy file offset lostSoFar scopes) =
      (yielded (metadata.preambleInRest file offset scopes)).bind fun preamble =>
        (PacketEntry.ofContext offset preamble.streamClass.id preamble.payloadStart preamble.fields
          file.size lostSoFar policy).map (·, preamble.streamClass) := by
  rw [entryInRest_apply]
  cases metadata.preambleInRest file offset scopes with
  | error e t => rfl
  | ok preamble t =>
    dsimp only [yielded, Except.bind]
    cases PacketEntry.ofContext offset preamble.streamClass.id preamble.payloadStart
      preamble.fields file.size lostSoFar policy with
    | error e => rfl
    | ok entry => rfl

/-- A packet is found to be what it is on its own, whatever was decoded before it. -/
theorem yielded_entryAt (policy : LostEventsPolicy) (lostSoFar : Nat) (hlt : offset < file.size)
    (h : metadata.Restores scopes) :
    yielded (metadata.entryAt policy file offset hlt lostSoFar
      (scopes.rewind metadata.baseScopes.checkpoint)) =
      metadata.entryAlone policy file offset lostSoFar := by
  have hclean := h.clean
  rw [(entryAt_agree hlt hclean.restoresPoint.linked hclean.alike).yielded.1, yielded_entryInRest,
    (preambleInRest_congr file offset hclean.alike).yielded.1]
  show (metadata.preambleAlone file offset).bind _ = _
  cases hpreamble : metadata.preambleAlone file offset with
  | error e =>
    unfold entryAlone
    rw [hpreamble]
    rfl
  | ok preamble =>
    rw [entryAlone_of_preamble hpreamble]
    rfl

end Metadata

namespace PacketIndex

variable {p p' : Progress} {more : Bool} {e : Error}

/-- Indexes the packet at the offset that has been reached, which is decoded on its own. -/
def scanStep (metadata : Metadata) (policy : LostEventsPolicy) (file : ByteArray) (p : Progress) :
    Except Error (Progress × Bool) :=
  match (metadata.entryAlone policy file p.offset p.lostSoFar).bind
    (checkClass p.streamClass p.offset) with
  | .error e => p.afterFailure e p.scopes
  | .ok (entry, found) => p.afterPacket entry found p.scopes

/-- A progress with the tree of scopes in which indexing starts. -/
def Progress.unscoped (metadata : Metadata) (p : Progress) : Progress :=
  { p with scopes := metadata.baseScopes }

theorem unscoped_afterFailure (p : Progress) (e : Error) (scopes : ScopeTree) :
    (p.afterFailure e scopes).map (Prod.map (Progress.unscoped metadata) id) =
      (p.unscoped metadata).afterFailure e metadata.baseScopes := by
  unfold Progress.afterFailure Progress.unscoped
  dsimp only
  cases p.streamClass.isSome && e.isTrailing with
  | false => rfl
  | true => rfl

theorem unscoped_afterPacket (p : Progress) (entry : PacketEntry) (found : StreamClass)
    (scopes : ScopeTree) :
    (p.afterPacket entry found scopes).map (Prod.map (Progress.unscoped metadata) id) =
      (p.unscoped metadata).afterPacket entry found metadata.baseScopes := by
  unfold Progress.afterPacket Progress.unscoped
  dsimp only
  split
  · rfl
  · cases p.index.append entry with
    | error e => rfl
    | ok index => rfl

/-- A step finds what is found by decoding the packet on its own. -/
theorem unscoped_step (policy : LostEventsPolicy) (hp : p.Valid metadata file)
    (hlt : p.offset < file.size) :
    (step metadata policy file metadata.baseScopes.checkpoint p hlt).map
        (Prod.map (Progress.unscoped metadata) id) =
      scanStep metadata policy file (p.unscoped metadata) := by
  have hfound := Metadata.yielded_entryAt policy p.lostSoFar hlt hp.restores
  unfold step scanStep
  dsimp only [Progress.unscoped]
  rw [← hfound, bind_apply]
  cases metadata.entryAt policy file p.offset hlt p.lostSoFar
    (p.scopes.rewind metadata.baseScopes.checkpoint) with
  | error e scopes => exact unscoped_afterFailure p e scopes
  | ok found scopes =>
    dsimp only [Metadata.yielded, Except.bind]
    cases checkClass p.streamClass p.offset found with
    | error e => exact unscoped_afterFailure p e scopes
    | ok found' => exact unscoped_afterPacket p found'.1 found'.2 scopes

theorem offset_lt_of_scanStep (h : scanStep metadata policy file p = .ok (p', true)) :
    p.offset < p'.offset := by
  unfold scanStep at h
  split at h
  · cases (Progress.afterFailure_eq_ok h).2.1
  · exact Progress.offset_lt_of_afterPacket h

/-- Indexes the packets from the offset that has been reached on, each decoded on its own. -/
def scan (metadata : Metadata) (policy : LostEventsPolicy) (file : ByteArray) (p : Progress) :
    Except Error Progress :=
  if p.offset < file.size then
    match hs : scanStep metadata policy file p with
    | .error e => .error e
    | .ok (p', false) => .ok p'
    | .ok (p', true) =>
      have := offset_lt_of_scanStep hs
      scan metadata policy file p'
  else .ok p
termination_by file.size - p.offset

theorem scan_of_more (hlt : p.offset < file.size)
    (h : scanStep metadata policy file p = .ok (p', true)) :
    scan metadata policy file p = scan metadata policy file p' := by
  rw [scan, if_pos hlt]
  split
  next e hs => cases h.symm.trans hs
  next p₁ hs => cases h.symm.trans hs
  next p₁ hs =>
    cases h.symm.trans hs
    rfl

theorem scan_of_last (hlt : p.offset < file.size)
    (h : scanStep metadata policy file p = .ok (p', false)) :
    scan metadata policy file p = .ok p' := by
  rw [scan, if_pos hlt]
  split
  next e hs => cases h.symm.trans hs
  next p₁ hs =>
    cases h.symm.trans hs
    rfl
  next p₁ hs => cases h.symm.trans hs

theorem scan_of_error (hlt : p.offset < file.size)
    (h : scanStep metadata policy file p = .error e) :
    scan metadata policy file p = .error e := by
  rw [scan, if_pos hlt]
  split
  next e' hs =>
    cases h.symm.trans hs
    rfl
  next p₁ hs => cases h.symm.trans hs
  next p₁ hs => cases h.symm.trans hs

theorem scan_of_end (h : file.size ≤ p.offset) : scan metadata policy file p = .ok p := by
  rw [scan, if_neg (Nat.not_lt.2 h)]

theorem unscoped_buildFrom (policy : LostEventsPolicy) (hp : p.Valid metadata file) :
    (buildFrom metadata policy file metadata.baseScopes.checkpoint p).map
        (Progress.unscoped metadata) =
      scan metadata policy file (p.unscoped metadata) := by
  fun_induction buildFrom metadata policy file metadata.baseScopes.checkpoint p with
  | case1 p hlt e hstep =>
    have hscan := unscoped_step policy hp hlt
    rw [hstep] at hscan
    exact (scan_of_error (p := p.unscoped metadata) hlt hscan.symm).symm
  | case2 p hlt p₁ hstep =>
    have hscan := unscoped_step policy hp hlt
    rw [hstep] at hscan
    exact (scan_of_last (p := p.unscoped metadata) hlt hscan.symm).symm
  | case3 p hlt p₁ hstep hmore ih =>
    have hspec := @step_spec metadata policy file p hp hlt
    rw [hstep] at hspec
    have hscan := unscoped_step policy hp hlt
    rw [hstep] at hscan
    rw [scan_of_more (p := p.unscoped metadata) hlt hscan.symm]
    exact ih hspec
  | case4 p hge => exact (scan_of_end (p := p.unscoped metadata) (Nat.not_lt.1 hge)).symm

/-- Indexing a file is a scan from its start. -/
theorem build_eq_scan (metadata : Metadata) (policy : LostEventsPolicy) (file : ByteArray) :
    build metadata policy file =
      (scan metadata policy file (.start metadata)).map Progress.outcome := by
  have hscan := unscoped_buildFrom policy (valid_start metadata file)
  have hstart : (Progress.start metadata).unscoped metadata = .start metadata := rfl
  rw [build_eq, ← hstart, ← hscan, hstart]
  cases buildFrom metadata policy file metadata.baseScopes.checkpoint (.start metadata) with
  | error e => rfl
  | ok p => rfl

/-- The progress after a packet that takes some bits. -/
def Progress.added (p : Progress) (entry : PacketEntry) (found : StreamClass)
    (index : PacketIndex) : Progress where
  scopes := p.scopes
  offset := p.offset + entry.byteSize
  lostSoFar := entry.eventsDiscarded.getD p.lostSoFar
  index := index
  streamClass := some (p.streamClass.getD found)

variable {entry : PacketEntry} {found : StreamClass} {index : PacketIndex}

/-- A packet that has been found is the one at the offset, and of the class of those before it. -/
theorem found_eq_ok
    (h : (metadata.entryAlone policy file p.offset p.lostSoFar).bind
      (checkClass p.streamClass p.offset) = .ok (entry, found)) :
    metadata.entryAlone policy file p.offset p.lostSoFar = .ok (entry, found) ∧
      checkClass p.streamClass p.offset (entry, found) = .ok (entry, found) := by
  cases halone : metadata.entryAlone policy file p.offset p.lostSoFar with
  | error e =>
    rw [halone] at h
    cases h
  | ok found' =>
    rw [halone] at h
    obtain ⟨rfl, -⟩ := checkClass_eq_ok h
    exact ⟨rfl, h⟩

theorem scanStep_of_found
    (hfound : metadata.entryAlone policy file p.offset p.lostSoFar = .ok (entry, found))
    (hclass : checkClass p.streamClass p.offset (entry, found) = .ok (entry, found))
    (hsize : entry.packetSize ≠ 0) (happend : p.index.append entry = .ok index) :
    scanStep metadata policy file p = .ok (p.added entry found index, true) := by
  unfold scanStep
  rw [hfound]
  dsimp only [Except.bind]
  rw [hclass]
  dsimp only
  unfold Progress.afterPacket
  rw [if_neg hsize, happend]
  rfl

/-- There may be another packet after one that has been added to the index. -/
theorem scanStep_eq_more (h : scanStep metadata policy file p = .ok (p', true)) :
    ∃ entry found index,
      metadata.entryAlone policy file p.offset p.lostSoFar = .ok (entry, found) ∧
      checkClass p.streamClass p.offset (entry, found) = .ok (entry, found) ∧
      entry.packetSize ≠ 0 ∧ p.index.append entry = .ok index ∧
      p' = p.added entry found index := by
  unfold scanStep at h
  split at h
  · cases (Progress.afterFailure_eq_ok h).2.1
  next entry found hfound =>
    obtain ⟨halone, hclass⟩ := found_eq_ok hfound
    unfold Progress.afterPacket at h
    dsimp only at h
    split at h
    · cases h
    next hsize =>
      split at h
      · cases h
      next index happend =>
        cases h
        exact ⟨entry, found, index, halone, hclass, hsize, happend, rfl⟩

/-- The last step of a scan leaves everything as it is, but for the class if there was none. -/
theorem scanStep_eq_last (h : scanStep metadata policy file p = .ok (p', false)) :
    ∃ found, p' = { p with streamClass := some (p.streamClass.getD found) } := by
  unfold scanStep at h
  split at h
  · obtain ⟨rfl, -, hstarted, -⟩ := Progress.afterFailure_eq_ok h
    obtain ⟨streamClass, hclass⟩ := Option.isSome_iff_exists.1 hstarted
    refine ⟨streamClass, ?_⟩
    rw [hclass, Option.getD_some, ← hclass]
  next entry found hfound =>
    refine ⟨found, ?_⟩
    unfold Progress.afterPacket at h
    dsimp only at h
    split at h
    · cases h
      rfl
    · split at h
      · cases h
      · cases h

/-- The packet at an offset cannot be read, or its counter goes backwards. -/
theorem entryAlone_eq_error {offset lostSoFar : Nat} (hlt : offset < file.size)
    (h : metadata.entryAlone policy file offset lostSoFar = .error e) :
    e.isTrailing ∨ policy = .error ∧
      ∃ counter < lostSoFar, e = .inconsistentLostEvents offset counter lostSoFar := by
  rw [← Metadata.yielded_entryAt policy lostSoFar hlt metadata.restores_baseScopes] at h
  have hspec := @entryAt_spec metadata policy file offset lostSoFar _ hlt
    metadata.restores_baseScopes
  split at hspec
  next entry streamClass scopes hrun =>
    rw [hrun] at h
    cases h
  next e' scopes hrun =>
    rw [hrun] at h
    cases h
    exact hspec.2

/-- The scan keeps what holds whenever a packet has been indexed. -/
theorem valid_of_scanStep (hp : p.Valid metadata file) (hscopes : p.scopes = metadata.baseScopes)
    (hlt : p.offset < file.size) (h : scanStep metadata policy file p = .ok (p', more)) :
    p'.Valid metadata file ∧ p'.scopes = metadata.baseScopes := by
  have hstep := unscoped_step policy hp hlt
  have hspec := @step_spec metadata policy file p hp hlt
  have hsame : p.unscoped metadata = p := by
    unfold Progress.unscoped
    rw [← hscopes]
  rw [hsame, h] at hstep
  split at hspec
  next p₁ more' hrun =>
    rw [hrun] at hstep
    cases hstep
    refine ⟨{ hspec with restores := metadata.restores_baseScopes, unstarted := ?_ }, rfl⟩
    intro hnone
    rw [Progress.unscoped, hspec.unstarted hnone]
    rfl
  next e hrun =>
    rw [hrun] at hstep
    cases hstep

end PacketIndex

end CommonTrace
