import CommonTrace.Proofs.Packet.Tiling
import CommonTrace.Proofs.Packet.Window

/-!
# Building an index

Indexing a file goes from packet to packet. After every step the packets so far lie end to
end up to the offset that has been reached, each of them has a preamble of its own in the
file, all are of one class, and the tree of scopes can be restored to the state before any
packet. A step refuses the file for what its first packet is, or because a packet
contradicts those before it, and for nothing else.
-/
namespace CommonTrace

/-- An entry of a packet that takes some bits of a file, lies within it, and starts with a
preamble. -/
structure Metadata.Describes (metadata : Metadata) (file : ByteArray) (e : PacketEntry) : Prop
    extends e.Fits file.size where
  size_pos : 0 < e.packetSize
  preamble : ∃ preamble, metadata.HasPreamble file e.offset preamble ∧
    preamble.payloadStart = e.payloadStart ∧ preamble.streamClass.id = e.streamId

theorem Metadata.Describes.closedBy {metadata : Metadata} {file : ByteArray}
    {last next : PacketEntry} (h : metadata.Describes file last)
    (hle : last.timestampBegin ≤ next.timestampBegin) :
    metadata.Describes file (last.closedBy next) := by
  refine ⟨h.toFits.closedBy hle, ?_, ?_⟩
  · obtain ⟨timestampEnd, heq⟩ := last.closedBy_eq next
    rw [heq]
    exact h.size_pos
  · obtain ⟨timestampEnd, heq⟩ := last.closedBy_eq next
    rw [heq]
    exact h.preamble

namespace PacketIndex

open Decoding

variable {metadata : Metadata} {policy : LostEventsPolicy} {file : ByteArray}
  {p p' : Progress} {e : Error} {more : Bool}

/-- The state in which indexing starts. -/
def Progress.start (metadata : Metadata) : Progress := { scopes := metadata.baseScopes }

/-- What holds whenever a packet has been indexed. Only where there is no class yet, nothing
has been done. -/
structure Progress.Valid (metadata : Metadata) (file : ByteArray) (p : Progress) : Prop where
  restores : metadata.Restores p.scopes
  offset_le : p.offset ≤ file.size
  tiles : Tiles p.index.entries.toList p.offset
  describes : ∀ e ∈ p.index.entries.toList, metadata.Describes file e
  ofClass : ∀ e ∈ p.index.entries.toList, ∃ c, p.streamClass = some c ∧ e.streamId = c.id
  classFound : ∀ c, p.streamClass = some c →
    ∃ offset preamble, metadata.HasPreamble file offset preamble ∧ c = preamble.streamClass
  unstarted : p.streamClass = none → p = .start metadata

/-- The reasons for which a file can be refused: its first packet cannot be read, packets do
not begin in the order of the file, or a counter goes backwards that must not. -/
inductive Refusal (metadata : Metadata) (policy : LostEventsPolicy) (file : ByteArray) :
    Error → Prop
  | first {e : Error} (h : 0 < file.size) (scopes : ScopeTree)
      (hfirst : metadata.entryAt policy file 0 h 0
        (metadata.baseScopes.rewind metadata.baseScopes.checkpoint) = .error e scopes) :
      Refusal metadata policy file e
  | order (offset timestampBegin previousBegin : Nat) (h : timestampBegin < previousBegin) :
      Refusal metadata policy file (.packetOrder offset timestampBegin previousBegin)
  | counter (offset counter lostSoFar : Nat) (hpolicy : policy = .error)
      (h : counter < lostSoFar) :
      Refusal metadata policy file (.inconsistentLostEvents offset counter lostSoFar)

theorem valid_start (metadata : Metadata) (file : ByteArray) :
    (Progress.start metadata).Valid metadata file where
  restores := metadata.restores_baseScopes
  offset_le := Nat.zero_le _
  tiles := ⟨.nil, fun _ he => (Option.not_mem_none _ he).elim, rfl⟩
  describes e he := by cases he
  ofClass e he := by cases he
  classFound c hc := by cases hc
  unstarted _ := rfl

/-- What a packet is found to be from a tree that can be restored. -/
theorem entryAt_spec {offset lostSoFar : Nat} {scopes : ScopeTree} (hlt : offset < file.size)
    (h : metadata.Restores scopes) :
    match metadata.entryAt policy file offset hlt lostSoFar
      (scopes.rewind metadata.baseScopes.checkpoint) with
    | .ok (entry, streamClass) scopes' =>
      metadata.Restores scopes' ∧ entry.Fits file.size ∧ entry.offset = offset ∧
        ∃ preamble, metadata.HasPreamble file offset preamble ∧
          preamble.payloadStart = entry.payloadStart ∧ preamble.streamClass.id = entry.streamId ∧
          streamClass = preamble.streamClass
    | .error e scopes' =>
      metadata.Restores scopes' ∧
        (e.isTrailing ∨ policy = .error ∧
          ∃ counter < lostSoFar, e = .inconsistentLostEvents offset counter lostSoFar) := by
  rw [Metadata.entryAt_apply]
  have hwindow :=
    Metadata.windowedPreamble_spec file offset (Metadata.firstWindow_pos hlt) h.clean
  split at hwindow
  next preamble scopes' hrun =>
    obtain ⟨hrestores, hpreamble⟩ := hwindow
    rw [hrun]
    dsimp only
    generalize hentry : PacketEntry.ofContext offset preamble.streamClass.id preamble.payloadStart
      preamble.fields file.size lostSoFar policy = result
    cases result with
    | error e => exact ⟨hrestores, PacketEntry.ofContext_eq_error hentry⟩
    | ok entry =>
      obtain ⟨hfits, hoffset, hid, hpayload⟩ :=
        PacketEntry.ofContext_eq_ok (Nat.le_of_lt hlt) hentry
      exact ⟨hrestores, hfits, hoffset, preamble, hpreamble, hpayload.symm, hid.symm, rfl⟩
  next e scopes' hrun =>
    rw [hrun]
    exact ⟨hwindow.1, .inl hwindow.2⟩

/-- A packet of another class ends the index. -/
theorem checkClass_eq_error {streamClass : Option StreamClass} {offset : Nat}
    {found : PacketEntry × StreamClass} (h : checkClass streamClass offset found = .error e) :
    streamClass ≠ none ∧ e.isTrailing := by
  unfold checkClass at h
  split at h
  · split at h
    · cases h
    · cases h
      exact ⟨nofun, rfl⟩
  · cases h

theorem checkClass_eq_ok {streamClass : Option StreamClass} {offset : Nat}
    {found found' : PacketEntry × StreamClass}
    (h : checkClass streamClass offset found = .ok found') :
    found' = found ∧ (streamClass.getD found.2).id = found.2.id := by
  unfold checkClass at h
  split at h
  · split at h
    next hid =>
      cases h
      exact ⟨rfl, hid⟩
    · cases h
  · cases h
    exact ⟨rfl, rfl⟩

/-- A packet that cannot be read refuses the file only if it is the first, or if its counter
goes backwards. -/
theorem afterFailure_spec (hp : p.Valid metadata file) (hlt : p.offset < file.size)
    {scopes : ScopeTree} (hrestores : metadata.Restores scopes)
    (hfirst : p.streamClass = none →
      metadata.entryAt policy file p.offset hlt p.lostSoFar
        (p.scopes.rewind metadata.baseScopes.checkpoint) = .error e scopes)
    (hcause : e.isTrailing ∨ policy = .error ∧
      ∃ counter < p.lostSoFar, e = .inconsistentLostEvents p.offset counter p.lostSoFar) :
    match p.afterFailure e scopes with
    | .ok (p', _) => p'.Valid metadata file
    | .error e => Refusal metadata policy file e := by
  unfold Progress.afterFailure
  rcases Option.eq_none_or_eq_some p.streamClass with hnone | ⟨streamClass, hsome⟩
  · have hrun := hfirst hnone
    rw [if_neg (by simp [hnone])]
    obtain rfl := hp.unstarted hnone
    exact .first hlt scopes hrun
  · rcases hcause with htrailing | ⟨hpolicy, counter, hcounter, rfl⟩
    · rw [if_pos (by simp [hsome, htrailing])]
      refine { hp with restores := hrestores, unstarted := fun hnone => ?_ }
      rw [hsome] at hnone
      cases hnone
    · rw [if_neg (by simp [Error.isTrailing])]
      exact .counter _ counter _ hpolicy hcounter

/-- A packet of the right class is added, unless it begins before the one before it. -/
theorem afterPacket_spec (hp : p.Valid metadata file) {entry : PacketEntry}
    {preamble : Preamble} {scopes : ScopeTree} (hrestores : metadata.Restores scopes)
    (hfits : entry.Fits file.size) (hoffset : entry.offset = p.offset)
    (hpreamble : metadata.HasPreamble file p.offset preamble)
    (hpayload : preamble.payloadStart = entry.payloadStart)
    (hid : preamble.streamClass.id = entry.streamId)
    (hsame : (p.streamClass.getD preamble.streamClass).id = preamble.streamClass.id) :
    match p.afterPacket entry preamble.streamClass scopes with
    | .ok (p', _) => p'.Valid metadata file
    | .error e => Refusal metadata policy file e := by
  have hfound : ∀ c, some (p.streamClass.getD preamble.streamClass) = some c →
      ∃ offset preamble, metadata.HasPreamble file offset preamble ∧ c = preamble.streamClass := by
    rintro c hc
    cases hc
    cases hclass : p.streamClass with
    | none => exact ⟨_, preamble, hpreamble, rfl⟩
    | some c => exact hp.classFound c hclass
  have hofClass : ∀ e ∈ p.index.entries.toList,
      ∃ c, some (p.streamClass.getD preamble.streamClass) = some c ∧ e.streamId = c.id := by
    intro e he
    obtain ⟨c, hc, hid⟩ := hp.ofClass e he
    exact ⟨c, by rw [hc, Option.getD_some], hid⟩
  unfold Progress.afterPacket
  dsimp only
  by_cases hsize : entry.packetSize = 0
  · rw [if_pos hsize]
    exact ⟨hrestores, hp.offset_le, hp.tiles, hp.describes, hofClass, hfound, nofun⟩
  · rw [if_neg hsize]
    have hdescribes : metadata.Describes file entry :=
      { hfits with
        size_pos := Nat.pos_of_ne_zero hsize
        preamble := ⟨preamble, hoffset ▸ hpreamble, hpayload, hid⟩ }
    cases happend : p.index.append entry with
    | error e =>
      obtain ⟨last, -, hlt, rfl⟩ := append_eq_error happend
      exact .order _ _ _ hlt
    | ok index =>
      have hnext : p.offset + entry.byteSize = entry.nextOffset := by
        rw [PacketEntry.nextOffset, hoffset]
      dsimp only
      rw [hnext]
      refine ⟨hrestores, hfits.nextOffset_le, hp.tiles.append hoffset happend, ?_, ?_, hfound,
        nofun⟩
      · exact forall_append happend hp.describes hdescribes fun e he hle => he.closedBy hle
      · refine forall_append happend hofClass ⟨_, rfl, ?_⟩ fun e he _ => ?_
        · rw [hsame, hid]
        · obtain ⟨timestampEnd, heq⟩ := e.closedBy_eq entry
          rw [heq]
          exact he

/-- A step yields a valid state or a reason to refuse the file. -/
theorem step_spec (hp : p.Valid metadata file) (hlt : p.offset < file.size) :
    match step metadata policy file metadata.baseScopes.checkpoint p hlt with
    | .ok (p', _) => p'.Valid metadata file
    | .error e => Refusal metadata policy file e := by
  have hentry := @entryAt_spec metadata policy file p.offset p.lostSoFar p.scopes hlt hp.restores
  unfold step
  dsimp only
  rw [bind_apply]
  cases hrun : metadata.entryAt policy file p.offset hlt p.lostSoFar
    (p.scopes.rewind metadata.baseScopes.checkpoint) with
  | error e scopes =>
    rw [hrun] at hentry
    exact afterFailure_spec hp hlt hentry.1 (fun _ => hrun) hentry.2
  | ok found scopes =>
    rw [hrun] at hentry
    obtain ⟨entry, streamClass⟩ := found
    obtain ⟨hrestores, hfits, hoffset, preamble, hpreamble, hpayload, hid, rfl⟩ := hentry
    dsimp only
    cases hcheck : checkClass p.streamClass p.offset (entry, preamble.streamClass) with
    | error e =>
      obtain ⟨hstarted, htrailing⟩ := checkClass_eq_error hcheck
      exact afterFailure_spec hp hlt hrestores (fun hnone => absurd hnone hstarted)
        (.inl htrailing)
    | ok found' =>
      obtain ⟨rfl, hsame⟩ := checkClass_eq_ok hcheck
      exact afterPacket_spec hp hrestores hfits hoffset hpreamble hpayload hid hsame

/-- Indexing ends in a valid state or with a reason to refuse the file. -/
theorem buildFrom_spec (hp : p.Valid metadata file) :
    match buildFrom metadata policy file metadata.baseScopes.checkpoint p with
    | .ok p' => p'.Valid metadata file
    | .error e => Refusal metadata policy file e := by
  fun_induction buildFrom metadata policy file metadata.baseScopes.checkpoint p with
  | case1 p hlt e hstep =>
    have hspec := @step_spec metadata policy file p hp hlt
    rw [hstep] at hspec
    exact hspec
  | case2 p hlt p' hstep =>
    have hspec := @step_spec metadata policy file p hp hlt
    rw [hstep] at hspec
    exact hspec
  | case3 p hlt p' hstep hmore ih =>
    have hspec := @step_spec metadata policy file p hp hlt
    rw [hstep] at hspec
    exact ih hspec
  | case4 p hge => exact hp

/-- The loop of indexing, given up after a number of packets. -/
def rounds (metadata : Metadata) (policy : LostEventsPolicy) (file : ByteArray)
    (base : ScopeCheckpoint) (n : Nat) (p : Progress) : Option (Except Error Progress) :=
  if h : p.offset < file.size then
    match n with
    | 0 => none
    | n + 1 =>
      match step metadata policy file base p h with
      | .error e => some (.error e)
      | .ok (p', false) => some (.ok p')
      | .ok (p', true) => rounds metadata policy file base n p'
  else some (.ok p)

/-- Every packet takes a byte at least, so that the loop ends after as many rounds as there
are bytes left. -/
theorem rounds_eq_some {base : ScopeCheckpoint} {n : Nat} (h : file.size - p.offset ≤ n) :
    rounds metadata policy file base n p = some (buildFrom metadata policy file base p) := by
  have hsucc (hlt : p.offset < file.size) : ∃ m, n = m + 1 := ⟨n - 1, by omega⟩
  fun_induction buildFrom metadata policy file base p generalizing n with
  | case1 p hlt e hstep =>
    obtain ⟨n, rfl⟩ := hsucc hlt
    rw [rounds, dif_pos hlt]
    dsimp only
    rw [hstep]
  | case2 p hlt p' hstep =>
    obtain ⟨n, rfl⟩ := hsucc hlt
    rw [rounds, dif_pos hlt]
    dsimp only
    rw [hstep]
  | case3 p hlt p' hstep hmore ih =>
    obtain ⟨n, rfl⟩ := hsucc hlt
    rw [rounds, dif_pos hlt]
    dsimp only
    rw [hstep]
    exact ih (by omega) fun hlt' => ⟨n - 1, by omega⟩
  | case4 p hge => rw [rounds, dif_neg hge]

/-- The packets of a file one after the other: they start at its first byte and directly
behind one another, begin in this order, lie within the file, and are of one class. -/
structure WellFormed (index : PacketIndex) (fileSize : Nat) (streamClass : Option StreamClass) :
    Prop where
  first : ∀ e, index.entries[0]? = some e → e.offset = 0
  next : ∀ i last next, index.entries[i]? = some last → index.entries[i + 1]? = some next →
    next.offset = last.offset + (last.packetSize + 7) / 8
  size_pos : ∀ e ∈ index.entries, 0 < e.packetSize
  fits : ∀ e ∈ index.entries, e.Fits fileSize
  ordered : ∀ (i j : Nat) (last next : PacketEntry), i ≤ j → index.entries[i]? = some last →
    index.entries[j]? = some next → last.timestampBegin ≤ next.timestampBegin
  ofClass : ∀ e ∈ index.entries, ∃ c, streamClass = some c ∧ e.streamId = c.id

theorem Progress.Valid.wellFormed (h : p.Valid metadata file) :
    p.index.WellFormed file.size p.streamClass where
  first e he := by
    apply h.tiles.first
    rw [List.head?_eq_getElem?, Array.getElem?_toList]
    exact he
  next i last next hi hnext := by
    rw [← Array.getElem?_toList] at hi hnext
    exact h.tiles.offset_succ hi hnext
  size_pos e he := (h.describes e (Array.mem_toList_iff.2 he)).size_pos
  fits e he := (h.describes e (Array.mem_toList_iff.2 he)).toFits
  ordered i j last next hij hi hj := by
    rw [← Array.getElem?_toList] at hi hj
    exact h.tiles.timestampBegin_le hij hi hj
  ofClass e he := h.ofClass e (Array.mem_toList_iff.2 he)

/-- What indexing yields of the state that it ends in. -/
def Progress.outcome (p : Progress) : PacketIndex × Option StreamClass := (p.index, p.streamClass)

theorem build_eq (metadata : Metadata) (policy : LostEventsPolicy) (file : ByteArray) :
    build metadata policy file =
      (buildFrom metadata policy file metadata.baseScopes.checkpoint (.start metadata)).map
        Progress.outcome :=
  rfl

/-- An index is what a valid state has reached. -/
theorem build_eq_ok {outcome : PacketIndex × Option StreamClass}
    (h : build metadata policy file = .ok outcome) :
    ∃ p : Progress, p.Valid metadata file ∧ p.outcome = outcome := by
  have hspec := @buildFrom_spec metadata policy file _ (valid_start metadata file)
  rw [build_eq] at h
  cases hrun : buildFrom metadata policy file metadata.baseScopes.checkpoint
    (.start metadata) with
  | error e =>
    rw [hrun] at h
    cases h
  | ok p =>
    rw [hrun] at h hspec
    cases h
    exact ⟨p, hspec, rfl⟩

theorem build_eq_error (h : build metadata policy file = .error e) :
    Refusal metadata policy file e := by
  have hspec := @buildFrom_spec metadata policy file _ (valid_start metadata file)
  rw [build_eq] at h
  cases hrun : buildFrom metadata policy file metadata.baseScopes.checkpoint
    (.start metadata) with
  | error e =>
    rw [hrun] at h hspec
    cases h
    exact hspec
  | ok p =>
    rw [hrun] at h
    cases h

theorem offset_le_of_step {base : ScopeCheckpoint} {hlt : p.offset < file.size}
    (h : step metadata policy file base p hlt = .ok (p', more)) : p.offset ≤ p'.offset := by
  cases more with
  | true => exact Nat.le_of_lt (offset_lt_of_step h)
  | false =>
    unfold step at h
    dsimp only at h
    split at h
    · obtain ⟨rfl, -⟩ := Progress.afterFailure_eq_ok h
      exact Nat.le_refl _
    · unfold Progress.afterPacket at h
      dsimp only at h
      split at h
      · cases h
        exact Nat.le_refl _
      · split at h <;> cases h

/-- Indexing never goes back. -/
theorem offset_le_of_buildFrom {base : ScopeCheckpoint}
    (h : buildFrom metadata policy file base p = .ok p') : p.offset ≤ p'.offset := by
  fun_induction buildFrom metadata policy file base p with
  | case1 p hlt e hstep => cases h
  | case2 p hlt p₁ hstep =>
    cases h
    exact offset_le_of_step hstep
  | case3 p hlt p₁ hstep hmore ih => exact Nat.le_trans (Nat.le_of_lt hmore) (ih h)
  | case4 p hge =>
    cases h
    exact Nat.le_refl _

/-- Whether the first packet of a file takes no bits. -/
def StartsEmpty (metadata : Metadata) (policy : LostEventsPolicy) (file : ByteArray) : Prop :=
  ∃ (h : 0 < file.size) (entry : PacketEntry) (streamClass : StreamClass) (scopes : ScopeTree),
    metadata.entryAt policy file 0 h 0
        (metadata.baseScopes.rewind metadata.baseScopes.checkpoint) =
      .ok (entry, streamClass) scopes ∧ entry.packetSize = 0

/-- Indexing goes on behind the first packet unless it takes no bits. -/
theorem startsEmpty_of_step {hlt : 0 < file.size}
    (h : step metadata policy file metadata.baseScopes.checkpoint (.start metadata) hlt =
      .ok (p', false)) : StartsEmpty metadata policy file := by
  unfold step at h
  dsimp only at h
  rw [bind_apply] at h
  cases hrun : metadata.entryAt policy file (Progress.start metadata).offset hlt
    (Progress.start metadata).lostSoFar
    ((Progress.start metadata).scopes.rewind metadata.baseScopes.checkpoint) with
  | error e scopes =>
    rw [hrun] at h
    cases h
  | ok found scopes =>
    rw [hrun] at h
    obtain ⟨entry, streamClass⟩ := found
    replace h : (Progress.start metadata).afterPacket entry streamClass scopes =
      .ok (p', false) := h
    unfold Progress.afterPacket at h
    dsimp only at h
    split at h
    next hsize => exact ⟨hlt, entry, streamClass, scopes, hrun, hsize⟩
    · split at h <;> cases h

/-- There is nothing in an index only if the file is empty or its first packet takes no bits. -/
theorem Progress.empty_of_buildFrom
    (h : buildFrom metadata policy file metadata.baseScopes.checkpoint (.start metadata) = .ok p)
    (hempty : p.index.entries = #[]) : file.size = 0 ∨ StartsEmpty metadata policy file := by
  have hvalid := @buildFrom_spec metadata policy file _ (valid_start metadata file)
  rw [h] at hvalid
  have hoffset : p.offset = 0 := by
    have hlast := hvalid.tiles.last
    rw [hempty] at hlast
    exact hlast.symm
  unfold buildFrom at h
  split at h
  next hlt =>
    right
    split at h
    · cases h
    next p₁ hstep => exact startsEmpty_of_step hstep
    next p₁ hstep =>
      -- the first packet is behind what has been reached
      have hfirst := offset_lt_of_step hstep
      have hrest := offset_le_of_buildFrom h
      omega
  next hge => exact .inl (Nat.eq_zero_of_not_pos hge)

/-- Indexing a file ends after at most as many packets as the file has bytes. It yields a well
formed index or a reason to refuse the file, whatever the file holds. There are packets in the index
unless the file is empty or its first packet takes no bits. -/
theorem build_wellFormed (metadata : Metadata) (policy : LostEventsPolicy) (file : ByteArray) :
    (rounds metadata policy file metadata.baseScopes.checkpoint file.size (.start metadata)).map
        (Except.map Progress.outcome) = some (build metadata policy file) ∧
      match build metadata policy file with
      | .ok (index, streamClass) => index.WellFormed file.size streamClass ∧
          (index.entries = #[] → file.size = 0 ∨ StartsEmpty metadata policy file)
      | .error e => Refusal metadata policy file e := by
  constructor
  · rw [rounds_eq_some (Nat.sub_le _ _), build_eq, Option.map_some]
  · rw [build_eq]
    cases hrun : buildFrom metadata policy file metadata.baseScopes.checkpoint
      (.start metadata) with
    | ok p =>
      have hvalid := @buildFrom_spec metadata policy file _ (valid_start metadata file)
      rw [hrun] at hvalid
      exact ⟨hvalid.wellFormed, p.empty_of_buildFrom hrun⟩
    | error e =>
      refine build_eq_error ?_
      rw [build_eq, hrun]
      rfl

end PacketIndex

end CommonTrace
