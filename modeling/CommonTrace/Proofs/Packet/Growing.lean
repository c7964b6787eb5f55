import CommonTrace.Proofs.Decoding.Growth
import CommonTrace.Proofs.Packet.Content
import Mathlib.Algebra.Group.Nat.Defs

/-!
# Growing windows

A preamble is tried in windows that grow until it fits. What a window shows is decided by its
bytes alone, unless they are too few: then the next window starts anew, from a tree of scopes in
which nothing of the last one is seen. So the windows yield what a single try yields in all that
is left of the file. As each is twice as wide as the last, there are few of them.
-/
namespace CommonTrace.Metadata

open Decoding

variable {α : Type} {metadata : Metadata} {file : ByteArray} {policy : LostEventsPolicy}
  {offset window lostSoFar : Nat} {scopes t kept : ScopeTree} {point : ScopeCheckpoint}

/-- The trial of windows, given up after a number of them. -/
def windowedWithin (metadata : Metadata) (file : ByteArray) (offset : Nat)
    (point : ScopeCheckpoint) :
    Nat → Nat → ScopeTree → Option (EStateM.Result Error ScopeTree Preamble)
  | 0, _, _ => none
  | n + 1, window, scopes =>
    match Preamble.decode metadata offset
      ⟨.ofBytes (file.extract offset (offset + window)), scopes⟩ with
    | .ok preamble s => some (.ok preamble s.scopes)
    | .error e s =>
      match e with
      | .bufferOverrun _ _ _ =>
        if window < file.size - offset then
          windowedWithin metadata file offset point n (min (window * 2) (file.size - offset))
            (s.scopes.rewind point)
        else some (.error e s.scopes)
      | _ => some (.error e s.scopes)

/-- As many windows are enough as it takes to double the first one to what is left of the file. -/
theorem windowedWithin_eq_some (hwindow : 0 < window) :
    ∀ n, file.size - offset ≤ window * 2 ^ n →
      windowedWithin metadata file offset point (n + 1) window scopes =
        some (windowedPreamble metadata file offset point window hwindow scopes) := by
  fun_induction windowedPreamble metadata file offset point window hwindow scopes with
  | case1 window hwindow scopes bytes preamble s hrun =>
    intro n h
    rw [windowedWithin, hrun]
  | case2 window hwindow scopes bytes s position requested available hwider hrun ih =>
    intro n h
    obtain ⟨m, rfl⟩ : ∃ m, n = m + 1 := by
      cases n with
      | zero => omega
      | succ m => exact ⟨m, rfl⟩
    rw [windowedWithin, hrun]
    dsimp only
    rw [if_pos hwider]
    apply ih
    rw [Nat.pow_succ, Nat.mul_comm (2 ^ m) 2, ← Nat.mul_assoc] at h
    rcases Nat.le_total (window * 2) (file.size - offset) with hle | hle
    · rwa [Nat.min_eq_left hle]
    · rw [Nat.min_eq_right hle]
      exact Nat.le_mul_of_pos_right _ (Nat.two_pow_pos m)
  | case3 window hwindow scopes bytes s position requested available hlast hrun =>
    intro n h
    rw [windowedWithin, hrun]
    dsimp only
    rw [if_neg hlast]
  | case4 window hwindow scopes bytes e s hrun hother =>
    intro n h
    rw [windowedWithin, hrun]
    cases e with
    | bufferOverrun position requested available => exact (hother _ _ _ rfl).elim
    | _ => rfl

/-- Results that agree, with trees in which the same is seen. -/
def Agree : EStateM.Result Error ScopeTree α → EStateM.Result Error ScopeTree α → Prop
  | .ok a t, .ok b t' => a = b ∧ t.Alike t'
  | .error e t, .error e' t' => e = e' ∧ t.Alike t'
  | _, _ => False

theorem Agree.ok {r r' : EStateM.Result Error ScopeTree α} {a : α} (h : Agree r r')
    (hr : r = .ok a t) : ∃ t', r' = .ok a t' ∧ t.Alike t' := by
  subst hr
  cases r' with
  | error e t' => exact h.elim
  | ok b t' =>
    obtain ⟨rfl, hseen⟩ := h
    exact ⟨t', rfl, hseen⟩

/-- The preamble at an offset, tried once in all that is left of the file. -/
def preambleInRest (metadata : Metadata) (file : ByteArray) (offset : Nat) :
    EStateM Error ScopeTree Preamble := fun scopes =>
  match Preamble.decode metadata offset
    ⟨.ofBytes (file.extract offset file.size), scopes⟩ with
  | .ok preamble s => .ok preamble s.scopes
  | .error e s => .error e s.scopes

/-- The whole of what is left of a file extends every window. -/
theorem extends_rest (hle : offset + window ≤ file.size) :
    (Cursor.ofBytes (file.extract offset (offset + window))).Extends
      (.ofBytes (file.extract offset file.size)) where
  position := rfl
  limit_le := by
    simp only [Cursor.ofBytes, ByteArray.size_extract]
    omega
  same := by
    apply Bits.sameBelow_extract
    · exact Nat.le_refl _
    · simp only [Cursor.ofBytes, ByteArray.size_extract]
      omega

theorem preambleInRest_congr (file : ByteArray) (offset : Nat) (h : scopes.Alike t) :
    Agree (preambleInRest metadata file offset scopes)
      (preambleInRest metadata file offset t) := by
  have hstart : Decoding.Alike ⟨.ofBytes (file.extract offset file.size), scopes⟩
      ⟨.ofBytes (file.extract offset file.size), t⟩ :=
    ⟨rfl, h⟩
  have halike := (Preamble.steps_decode metadata offset).alike hstart
  unfold preambleInRest
  cases hrun : Preamble.decode metadata offset
    ⟨.ofBytes (file.extract offset file.size), scopes⟩ with
  | error e s =>
    obtain ⟨s', hs', hseen⟩ := halike.error hrun
    rw [hs']
    exact ⟨rfl, hseen.2⟩
  | ok preamble s =>
    obtain ⟨s', hs', hseen⟩ := halike.ok hrun
    rw [hs']
    exact ⟨rfl, hseen.2⟩

/-- A preamble that is found in a window is found in all that is left of the file. -/
theorem preambleInRest_of_ok {preamble : Preamble} {s : Decoding}
    (hle : offset + window ≤ file.size)
    (hrun : Preamble.decode metadata offset
      ⟨.ofBytes (file.extract offset (offset + window)), scopes⟩ = .ok preamble s) :
    preambleInRest metadata file offset scopes = .ok preamble s.scopes := by
  obtain ⟨d, hd, -⟩ := (Preamble.steps_decode metadata offset).extends_ok hrun (Nat.zero_le _)
    (extends_rest hle)
  unfold preambleInRest
  rw [hd]

/-- A failure that is not for want of bits is the same in all that is left of the file. -/
theorem preambleInRest_of_error {e : Error} {s : Decoding} (hle : offset + window ≤ file.size)
    (hrun : Preamble.decode metadata offset
      ⟨.ofBytes (file.extract offset (offset + window)), scopes⟩ = .error e s)
    (he : ¬e.IsOverrun) :
    preambleInRest metadata file offset scopes = .error e s.scopes := by
  obtain ⟨d, hd⟩ := (Preamble.steps_decode metadata offset).extends_error hrun (Nat.zero_le _)
    (extends_rest hle) he
  unfold preambleInRest
  rw [hd]

/-- Rewinding after a try brings back the tree that it started from. -/
theorem restores_retry (hkept : kept.Alike metadata.baseScopes)
    (h : ScopeTree.Restores point kept scopes) (offset : Nat) (cursor : Cursor) :
    ScopeTree.Restores point kept
        ((final (Preamble.decode metadata offset ⟨cursor, scopes⟩)).scopes.rewind point) ∧
      ((final (Preamble.decode metadata offset ⟨cursor, scopes⟩)).scopes.rewind point).Alike
        kept := by
  have hafter := Preamble.restores_decode offset ⟨cursor, scopes⟩ hkept h
  have hcount : DynamicScope.count ≤ point.size := by
    rw [← h.size_eq, hkept.size]
    exact metadata.linked_baseScopes.count_le
  exact ⟨hafter.rewind ⟨Nat.le_refl _, Nat.le_refl _⟩ hcount, hafter.alike⟩

/-- Windows yield what a single try in all that is left of the file yields. -/
theorem windowedPreamble_agree (hwindow : 0 < window) (hlt : offset < file.size)
    (hle : window ≤ file.size - offset) (hkept : kept.Alike metadata.baseScopes)
    (h : ScopeTree.Restores point kept scopes) (halike : scopes.Alike kept) :
    Agree (windowedPreamble metadata file offset point window hwindow scopes)
      (preambleInRest metadata file offset kept) := by
  fun_induction windowedPreamble metadata file offset point window hwindow scopes with
  | case1 window hwindow scopes bytes preamble s hrun =>
    rw [← preambleInRest_of_ok (by omega) hrun]
    exact preambleInRest_congr file offset halike
  | case2 window hwindow scopes bytes s position requested available hwider hrun ih =>
    obtain ⟨hrestores, hsame⟩ := restores_retry hkept h offset (.ofBytes bytes)
    rw [hrun] at hrestores hsame
    exact ih (Nat.min_le_right _ _) hrestores hsame
  | case3 window hwindow scopes bytes s position requested available hlast hrun =>
    -- the last window is all that is left of the file
    have hall : offset + window = file.size := by omega
    have hrest : preambleInRest metadata file offset scopes =
        .error (.bufferOverrun position requested available) s.scopes := by
      unfold preambleInRest
      rw [← hall, hrun]
    rw [← hrest]
    exact preambleInRest_congr file offset halike
  | case4 window hwindow scopes bytes e s hrun hother =>
    have he : ¬e.IsOverrun := by
      intro he
      cases e with
      | bufferOverrun position requested available => exact hother _ _ _ rfl
      | _ => exact he
    rw [← preambleInRest_of_error (by omega) hrun he]
    exact preambleInRest_congr file offset halike

/-- The entry and the stream class of the packet at an offset, by a single try in all that is left
of the file. -/
def entryInRest (metadata : Metadata) (policy : LostEventsPolicy) (file : ByteArray)
    (offset lostSoFar : Nat) : EStateM Error ScopeTree (PacketEntry × StreamClass) := do
  let preamble ← preambleInRest metadata file offset
  let entry ← Preamble.lift (PacketEntry.ofContext offset preamble.streamClass.id
    preamble.payloadStart preamble.fields file.size lostSoFar policy)
  return (entry, preamble.streamClass)

theorem entryInRest_apply (scopes : ScopeTree) :
    metadata.entryInRest policy file offset lostSoFar scopes =
      match metadata.preambleInRest file offset scopes with
      | .error e scopes' => .error e scopes'
      | .ok preamble scopes' =>
        match PacketEntry.ofContext offset preamble.streamClass.id preamble.payloadStart
          preamble.fields file.size lostSoFar policy with
        | .error e => .error e scopes'
        | .ok entry => .ok (entry, preamble.streamClass) scopes' := by
  unfold entryInRest
  rw [bind_apply]
  cases metadata.preambleInRest file offset scopes with
  | error e scopes' => rfl
  | ok preamble scopes' =>
    dsimp only
    cases PacketEntry.ofContext offset preamble.streamClass.id preamble.payloadStart
      preamble.fields file.size lostSoFar policy with
    | error e => rfl
    | ok entry => rfl

theorem entryAt_agree (hlt : offset < file.size) (hlinked : t.Linked)
    (halike : t.Alike metadata.baseScopes) :
    Agree (metadata.entryAt policy file offset hlt lostSoFar t)
      (metadata.entryInRest policy file offset lostSoFar t) := by
  have hagree := windowedPreamble_agree (firstWindow_pos hlt) hlt (Nat.min_le_right _ _) halike
    (.now hlinked) (.refl t)
  rw [entryAt_apply, entryInRest_apply]
  revert hagree
  cases windowedPreamble metadata file offset t.checkpoint
    (min firstWindow (file.size - offset)) (firstWindow_pos hlt) t with
  | error e t₁ =>
    cases preambleInRest metadata file offset t with
    | error e' t₂ => exact id
    | ok preamble t₂ => exact False.elim
  | ok preamble t₁ =>
    cases preambleInRest metadata file offset t with
    | error e' t₂ => exact False.elim
    | ok preamble' t₂ =>
      rintro ⟨rfl, hseen⟩
      dsimp only
      cases PacketEntry.ofContext offset preamble.streamClass.id preamble.payloadStart
        preamble.fields file.size lostSoFar policy with
      | error e => exact ⟨rfl, hseen⟩
      | ok entry => exact ⟨rfl, hseen⟩

/-- What is yielded, apart from the tree of scopes. -/
def yielded : EStateM.Result Error ScopeTree α → Except Error α
  | .ok a _ => .ok a
  | .error e _ => .error e

/-- The tree of scopes that is left. -/
def left : EStateM.Result Error ScopeTree α → ScopeTree
  | .ok _ t => t
  | .error _ t => t

theorem Agree.yielded {r r' : EStateM.Result Error ScopeTree α} (h : Agree r r') :
    yielded r = yielded r' ∧ (left r).Alike (left r') := by
  cases r with
  | ok a t =>
    cases r' with
    | ok b t' =>
      obtain ⟨rfl, hseen⟩ := h
      exact ⟨rfl, hseen⟩
    | error e t' => exact h.elim
  | error e t =>
    cases r' with
    | ok b t' => exact h.elim
    | error e' t' =>
      obtain ⟨rfl, hseen⟩ := h
      exact ⟨rfl, hseen⟩

/-- Indexing a packet from a tree that holds the constants of the environment alone ends after as
many windows as it takes to double the first one to what is left of the file, and one. It yields
the entry and the class, or the failure, that a single try in all that is left of the file yields,
and leaves a tree in which every path leads to the same value. -/
theorem entryAt_eq_entryInRest (policy : LostEventsPolicy) (lostSoFar : Nat)
    (hlt : offset < file.size) (hlinked : t.Linked) (halike : t.Alike metadata.baseScopes) :
    (∀ n, file.size - offset ≤ firstWindow * 2 ^ n →
        windowedWithin metadata file offset t.checkpoint (n + 1)
            (min firstWindow (file.size - offset)) t =
          some (windowedPreamble metadata file offset t.checkpoint
            (min firstWindow (file.size - offset)) (firstWindow_pos hlt) t)) ∧
      yielded (metadata.entryAt policy file offset hlt lostSoFar t) =
        yielded (metadata.entryInRest policy file offset lostSoFar t) ∧
      ∀ node path, (left (metadata.entryAt policy file offset hlt lostSoFar t)).lookup? node path =
        (left (metadata.entryInRest policy file offset lostSoFar t)).lookup? node path := by
  have hagree : Agree (metadata.entryAt policy file offset hlt lostSoFar t)
      (metadata.entryInRest policy file offset lostSoFar t) :=
    entryAt_agree hlt hlinked halike
  obtain ⟨hyielded, hseen⟩ := hagree.yielded
  refine ⟨fun n hn => windowedWithin_eq_some _ n ?_, hyielded, fun node path => ?_⟩
  · rcases Nat.le_total firstWindow (file.size - offset) with hle | hle
    · rwa [Nat.min_eq_left hle]
    · rw [Nat.min_eq_right hle]
      exact Nat.le_mul_of_pos_right _ (Nat.two_pow_pos n)
  · exact hseen.lookupTokens? node _

/-- A trace whose packet context is a text. -/
def textTrace : Metadata :=
  let context : StructType := ⟨.byte, [("text", .string .utf8)]⟩
  { byteOrder := .little, streams := [{ id := 0, packetContext := some context }] }

/-- A text that ends only in the second window. -/
def longText : ByteArray := ⟨(Array.replicate 99999 65).push 0⟩

theorem entryAt_eq_entryInRest_longText :
    ∃ hlt : 0 < longText.size, textTrace.baseScopes.Linked ∧
      windowedWithin textTrace longText 0 textTrace.baseScopes.checkpoint 2
          (min firstWindow (longText.size - 0)) textTrace.baseScopes =
        some (windowedPreamble textTrace longText 0 textTrace.baseScopes.checkpoint
          (min firstWindow (longText.size - 0)) (firstWindow_pos hlt) textTrace.baseScopes) ∧
      yielded (textTrace.entryAt .clamp longText 0 hlt 0 textTrace.baseScopes) =
        yielded (textTrace.entryInRest .clamp longText 0 0 textTrace.baseScopes) := by
  have hsize : longText.size = 100000 := by
    show ((Array.replicate 99999 65).push 0).size = 100000
    rw [Array.size_push, Array.size_replicate]
  have hlt : 0 < longText.size := by omega
  have hlinked := textTrace.linked_baseScopes
  obtain ⟨hwindows, hyielded, -⟩ :=
    entryAt_eq_entryInRest .clamp 0 hlt hlinked (ScopeTree.Alike.refl textTrace.baseScopes)
  refine ⟨hlt, hlinked, hwindows 1 ?_, hyielded⟩
  rw [hsize]
  decide

end CommonTrace.Metadata
