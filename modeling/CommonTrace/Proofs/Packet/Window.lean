import CommonTrace.Proofs.Packet.Entry
import CommonTrace.Proofs.Packet.Preamble

/-!
# Reading a packet in windows

The preamble found in some window is the one that is decoded there into a tree that holds
the constants of the environment alone: what was decoded in smaller windows, and of
earlier packets, has no part in it.
-/
namespace CommonTrace.Metadata

open Decoding

variable {metadata : Metadata} {file : ByteArray} {policy : LostEventsPolicy}
  {offset window lostSoFar : Nat} {scopes scopes' kept : ScopeTree} {point : ScopeCheckpoint}
  {preamble : Preamble} {entry : PacketEntry} {streamClass : StreamClass} {e : Error}

/-- The preamble at an offset of a file, decoded in some window on its own. -/
def HasPreamble (metadata : Metadata) (file : ByteArray) (offset : Nat) (preamble : Preamble) :
    Prop :=
  ∃ window s, Preamble.decode metadata offset
    ⟨.ofBytes (file.extract offset (offset + window)), metadata.baseScopes⟩ = .ok preamble s

/-- A tree that looks as it does before any packet, which a point brings back. -/
structure Clean (metadata : Metadata) (point : ScopeCheckpoint) (kept t : ScopeTree) : Prop where
  restores : metadata.Restores t
  restoresPoint : ScopeTree.Restores point kept t
  notAfter : metadata.baseScopes.checkpoint.NotAfter point
  kept_alike : kept.Alike metadata.baseScopes
  alike : t.Alike metadata.baseScopes

/-- Dropping what was decoded last cleans a tree. -/
theorem Restores.clean (h : metadata.Restores scopes) :
    metadata.Clean (scopes.rewind metadata.baseScopes.checkpoint).checkpoint
      (scopes.rewind metadata.baseScopes.checkpoint)
      (scopes.rewind metadata.baseScopes.checkpoint) := by
  have hrewound : metadata.Restores (scopes.rewind metadata.baseScopes.checkpoint) :=
    h.rewind ⟨Nat.le_refl _, Nat.le_refl _⟩ metadata.linked_baseScopes.count_le
  exact ⟨hrewound, .now hrewound.linked, ⟨hrewound.size_le, hrewound.clock_le⟩, h.alike, h.alike⟩

/-- A tree is clean again after a preamble, however decoding it has ended. -/
theorem Clean.rewind_decode (h : metadata.Clean point kept scopes) (offset : Nat)
    (cursor : Cursor) :
    metadata.Restores (final (Preamble.decode metadata offset ⟨cursor, scopes⟩)).scopes ∧
      metadata.Clean point kept
        ((final (Preamble.decode metadata offset ⟨cursor, scopes⟩)).scopes.rewind point) := by
  have hbase := Preamble.restores_decode offset ⟨cursor, scopes⟩ (.refl _) h.restores
  have hkept := Preamble.restores_decode offset ⟨cursor, scopes⟩ h.kept_alike h.restoresPoint
  generalize final (Preamble.decode metadata offset ⟨cursor, scopes⟩) = s at hbase hkept
  have hcount : DynamicScope.count ≤ point.size :=
    Nat.le_trans metadata.linked_baseScopes.count_le h.notAfter.1
  exact ⟨hbase, hbase.rewind h.notAfter hcount,
    hkept.rewind ⟨Nat.le_refl _, Nat.le_refl _⟩ hcount, h.notAfter, h.kept_alike,
    hkept.alike.trans h.kept_alike⟩

/-- The preamble found in windows is one that the file has. Where there is none, the
failure is one that tells that the data is no packet. -/
theorem windowedPreamble_spec (file : ByteArray) (offset : Nat) (hwindow : 0 < window)
    (h : metadata.Clean point kept scopes) :
    match windowedPreamble metadata file offset point window hwindow scopes with
    | .ok preamble scopes' => metadata.Restores scopes' ∧ metadata.HasPreamble file offset preamble
    | .error e scopes' => metadata.Restores scopes' ∧ e.isTrailing := by
  fun_induction windowedPreamble metadata file offset point window hwindow scopes with
  | case1 window hwindow scopes bytes preamble s hrun =>
    have hrestores := (h.rewind_decode offset (.ofBytes bytes)).1
    rw [hrun] at hrestores
    have halike : Decoding.Alike ⟨.ofBytes bytes, scopes⟩ ⟨.ofBytes bytes, metadata.baseScopes⟩ :=
      ⟨rfl, h.alike⟩
    obtain ⟨s', hbase, -⟩ := ((Preamble.steps_decode metadata offset).alike halike).ok hrun
    exact ⟨hrestores, window, s', hbase⟩
  | case2 window hwindow scopes bytes s position requested available hwider hrun ih =>
    have hclean := (h.rewind_decode offset (.ofBytes bytes)).2
    rw [hrun] at hclean
    exact ih hclean
  | case3 window hwindow scopes bytes s position requested available hlast hrun =>
    have hrestores := (h.rewind_decode offset (.ofBytes bytes)).1
    rw [hrun] at hrestores
    exact ⟨hrestores, Preamble.isTrailing_decode hrun⟩
  | case4 window hwindow scopes bytes e s hrun hother =>
    have hrestores := (h.rewind_decode offset (.ofBytes bytes)).1
    rw [hrun] at hrestores
    exact ⟨hrestores, Preamble.isTrailing_decode hrun⟩

/-- What indexing a packet yields from a clean tree. -/
theorem entryAt_apply (hlt : offset < file.size) (scopes : ScopeTree) :
    metadata.entryAt policy file offset hlt lostSoFar scopes =
      match metadata.windowedPreamble file offset scopes.checkpoint
        (min firstWindow (file.size - offset)) (firstWindow_pos hlt) scopes with
      | .error e scopes' => .error e scopes'
      | .ok preamble scopes' =>
        match PacketEntry.ofContext offset preamble.streamClass.id preamble.payloadStart
          preamble.fields file.size lostSoFar policy with
        | .error e => .error e scopes'
        | .ok entry => .ok (entry, preamble.streamClass) scopes' := by
  unfold entryAt
  dsimp only [bind, EStateM.bind, get, getThe, MonadStateOf.get, EStateM.get]
  cases windowedPreamble metadata file offset scopes.checkpoint _ _ scopes with
  | error e scopes' => rfl
  | ok preamble scopes' =>
    dsimp only
    cases PacketEntry.ofContext offset preamble.streamClass.id preamble.payloadStart
      preamble.fields file.size lostSoFar policy with
    | error e => rfl
    | ok entry => rfl

end CommonTrace.Metadata
