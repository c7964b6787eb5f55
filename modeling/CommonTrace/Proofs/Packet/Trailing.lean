import CommonTrace.Proofs.Packet.Scanning

/-!
# Data after the last packet

Packets that tell their own sizes do not depend on what follows them in their file. Whatever it is,
it is refused only as a packet that contradicts those before it. Else it may tell where the last of
them ends, if that was not known, and changes nothing else.
-/
namespace CommonTrace

open Decoding

variable {metadata : Metadata} {policy : LostEventsPolicy} {file trailing : ByteArray}

/-- Whether an error tells that a packet does not fit those before it. -/
def Error.IsContradiction (policy : LostEventsPolicy) : Error → Prop
  | packetOrder _ _ _ => True
  | inconsistentLostEvents _ _ _ => policy = .error
  | _ => False

namespace Metadata

variable {offset lostSoFar : Nat} {preamble : Preamble} {entry : PacketEntry}
  {streamClass : StreamClass}

/-- A preamble does not depend on what follows it. -/
theorem preambleAlone_append (trailing : ByteArray) (hle : offset ≤ file.size)
    (h : metadata.preambleAlone file offset = .ok preamble) :
    metadata.preambleAlone (file ++ trailing) offset = .ok preamble := by
  unfold preambleAlone at h ⊢
  cases hrest : metadata.preambleInRest file offset metadata.baseScopes with
  | error e t =>
    rw [hrest] at h
    cases h
  | ok preamble' t =>
    rw [hrest] at h
    cases h
    obtain ⟨s, hrun⟩ := preambleInRest_eq_ok hrest
    -- what was left of the file is a window of what is left of the longer one
    have hwindow : (file ++ trailing).extract offset (offset + (file.size - offset)) =
        file.extract offset file.size := by
      rw [Nat.add_sub_cancel' hle, ByteArray.extract_append_size_left]
    rw [← hwindow] at hrun
    rw [preambleInRest_of_ok (by rw [ByteArray.size_append]; omega) hrun]
    rfl

/-- A packet that tells its own size does not depend on what follows it. -/
theorem entryAlone_append (trailing : ByteArray) (hle : offset ≤ file.size)
    (hsize : (PacketEntry.number? entry.attributes "packet_size").isSome)
    (h : metadata.entryAlone policy file offset lostSoFar = .ok (entry, streamClass)) :
    metadata.entryAlone policy (file ++ trailing) offset lostSoFar = .ok (entry, streamClass) := by
  obtain ⟨preamble, hpreamble, hclass, hentry⟩ := entryAlone_eq_ok h
  have hlonger : file.size ≤ (file ++ trailing).size := by
    rw [ByteArray.size_append]
    exact Nat.le_add_right _ _
  rw [entryAlone_of_preamble (preambleAlone_append trailing hle hpreamble),
    PacketEntry.ofContext_longer hlonger hsize hentry, hclass]
  rfl

end Metadata

namespace PacketIndex

variable {p p' : Progress} {e : Error} {index : PacketIndex} {streamClass : Option StreamClass}
  {init : List PacketEntry} {last : PacketEntry}

/-- What does not depend on the ends of packets stays as it is when more are indexed. -/
theorem map_isPrefix_of_scan {α : Type} {f : PacketEntry → α}
    (hf : ∀ (e : PacketEntry) (timestampEnd : Nat), f { e with timestampEnd } = f e)
    (h : scan metadata policy file p = .ok p') :
    p.index.entries.toList.map f <+: p'.index.entries.toList.map f := by
  fun_induction scan metadata policy file p with
  | case1 p hlt e hstep => cases h
  | case2 p hlt p₁ hstep =>
    cases h
    obtain ⟨found, rfl⟩ := scanStep_eq_last hstep
    exact List.prefix_rfl
  | case3 p hlt p₁ hstep hmore ih =>
    obtain ⟨entry, found, index, -, -, -, happend, rfl⟩ := scanStep_eq_more hstep
    refine List.IsPrefix.trans ?_ (ih h)
    dsimp only [Progress.added]
    rw [map_of_append hf happend]
    exact List.prefix_append _ _
  | case4 p hge =>
    cases h
    exact List.prefix_rfl

/-- A scan that has come to the end of a file goes on from there in a longer file. -/
theorem scan_append (trailing : ByteArray) (hp : p.Valid metadata file)
    (hscopes : p.scopes = metadata.baseScopes) (h : scan metadata policy file p = .ok p')
    (hend : Tiles p'.index.entries.toList file.size)
    (hsizes : ∀ attributes ∈ p'.index.entries.toList.map (·.attributes),
      (PacketEntry.number? attributes "packet_size").isSome) :
    scan metadata policy (file ++ trailing) p = scan metadata policy (file ++ trailing) p' := by
  fun_induction scan metadata policy file p with
  | case1 p hlt e hstep => cases h
  | case2 p hlt p₁ hstep =>
    cases h
    obtain ⟨found, rfl⟩ := scanStep_eq_last hstep
    -- the packets end where the scan has stopped, which is before the end of the file
    have hstop : p.offset = file.size := hp.tiles.last.symm.trans hend.last
    omega
  | case3 p hlt p₁ hstep hmore ih =>
    obtain ⟨hp₁, hscopes₁⟩ := valid_of_scanStep hp hscopes hlt hstep
    obtain ⟨entry, found, index, halone, hclass, hsize, happend, rfl⟩ := scanStep_eq_more hstep
    have hentry : entry.attributes ∈ p'.index.entries.toList.map (·.attributes) := by
      refine (map_isPrefix_of_scan (fun _ _ => rfl) h).subset ?_
      dsimp only [Progress.added]
      rw [map_of_append (fun _ _ => rfl) happend]
      exact List.mem_append_right _ (List.mem_singleton.2 rfl)
    have halone' := Metadata.entryAlone_append trailing (Nat.le_of_lt hlt) (hsizes _ hentry) halone
    have hlt' : p.offset < (file ++ trailing).size := by
      rw [ByteArray.size_append]
      exact Nat.lt_add_right _ hlt
    rw [scan_of_more hlt' (scanStep_of_found halone' hclass hsize happend)]
    exact ih hp₁ hscopes₁ h
  | case4 p hge =>
    cases h
    rfl

/-- Once there are packets, data that is no packet ends the index. -/
theorem isContradiction_of_afterFailure (hstarted : p.streamClass.isSome) {e' : Error}
    (hcause : e'.isTrailing ∨ policy = .error ∧
      ∃ counter < p.lostSoFar, e' = .inconsistentLostEvents p.offset counter p.lostSoFar)
    (h : p.afterFailure e' p.scopes = .error e) : e.IsContradiction policy := by
  unfold Progress.afterFailure at h
  rcases hcause with htrailing | ⟨hpolicy, counter, -, rfl⟩
  · rw [hstarted, htrailing] at h
    cases h
  · split at h
    · cases h
    · cases h
      exact hpolicy

theorem isContradiction_of_scanStep (hstarted : p.streamClass.isSome) (hlt : p.offset < file.size)
    (h : scanStep metadata policy file p = .error e) : e.IsContradiction policy := by
  unfold scanStep at h
  split at h
  next e' hfound =>
    refine isContradiction_of_afterFailure hstarted ?_ h
    cases halone : metadata.entryAlone policy file p.offset p.lostSoFar with
    | error e₁ =>
      rw [halone] at hfound
      cases hfound
      exact entryAlone_eq_error hlt halone
    | ok found =>
      rw [halone] at hfound
      exact .inl (checkClass_eq_error hfound).2
  next entry found hfound =>
    unfold Progress.afterPacket at h
    dsimp only at h
    split at h
    · cases h
    · split at h
      next happend =>
        cases h
        obtain ⟨last, -, -, rfl⟩ := append_eq_error happend
        trivial
      · cases h

theorem isContradiction_of_scan (hstarted : p.streamClass.isSome)
    (h : scan metadata policy file p = .error e) : e.IsContradiction policy := by
  fun_induction scan metadata policy file p with
  | case1 p hlt e' hstep =>
    cases h
    exact isContradiction_of_scanStep hstarted hlt hstep
  | case2 p hlt p₁ hstep => cases h
  | case3 p hlt p₁ hstep hmore ih =>
    obtain ⟨entry, found, index, -, -, -, -, rfl⟩ := scanStep_eq_more hstep
    exact ih rfl h
  | case4 p hge => cases h

/-- The packets that are found behind some others change of these the end of the last one at
most. -/
theorem entries_of_scan (hentries : p.index.entries.toList = init ++ [last])
    (hstarted : p.streamClass.isSome) (h : scan metadata policy file p = .ok p') :
    p'.streamClass = p.streamClass ∧ ∃ rest : List PacketEntry,
      p'.index.entries.toList = init ++ rest.head?.elim last last.closedBy :: rest := by
  obtain ⟨streamClass, hclass⟩ := Option.isSome_iff_exists.1 hstarted
  fun_induction scan metadata policy file p generalizing init last with
  | case1 p hlt e hstep => cases h
  | case2 p hlt p₁ hstep =>
    cases h
    obtain ⟨found, rfl⟩ := scanStep_eq_last hstep
    exact ⟨by rw [hclass]; rfl, [], hentries⟩
  | case3 p hlt p₁ hstep hmore ih =>
    obtain ⟨entry, found, index, -, -, -, happend, rfl⟩ := scanStep_eq_more hstep
    have hadded : index.entries.toList = init ++ [last.closedBy entry] ++ [entry] := by
      rw [entries_of_append hentries happend, List.append_assoc]
      rfl
    have hkept : (p.added entry found index).streamClass = p.streamClass := by
      dsimp only [Progress.added]
      rw [hclass]
      rfl
    obtain ⟨hsame, rest, hrest⟩ := ih hadded rfl h (hkept.trans hclass)
    refine ⟨hsame.trans hkept, rest.head?.elim entry entry.closedBy :: rest, ?_⟩
    -- the end that the new packet tells does not depend on where it ends itself
    have hclosed : last.closedBy (rest.head?.elim entry entry.closedBy) = last.closedBy entry := by
      cases rest.head? with
      | none => rfl
      | some next =>
        obtain ⟨timestampEnd, heq⟩ := entry.closedBy_eq next
        dsimp only [Option.elim_some]
        rw [heq]
        rfl
    rw [hrest, List.append_assoc, List.head?_cons, Option.elim_some, hclosed]
    rfl
  | case4 p hge =>
    cases h
    exact ⟨rfl, [], hentries⟩

/-- Data behind the last packet of a file damages none of its packets, as long as they tell their
sizes. Whatever it is, the file is refused only because a packet is found that contradicts those
before it. Else the index goes on behind the packets of the file, which are the same but for the end
of the last one: if it was not known, it is where the first packet behind it begins. -/
theorem build_append (trailing : ByteArray)
    (h : build metadata policy file = .ok (index, streamClass))
    (hentries : index.entries.toList = init ++ [last]) (hend : last.nextOffset = file.size)
    (hsizes : ∀ e ∈ index.entries, (PacketEntry.number? e.attributes "packet_size").isSome) :
    match build metadata policy (file ++ trailing) with
    | .error e => e.IsContradiction policy
    | .ok (index', streamClass') =>
      streamClass' = streamClass ∧ ∃ rest : List PacketEntry,
        index'.entries.toList = init ++ rest.head?.elim last last.closedBy :: rest := by
  obtain ⟨p₀, hp₀, houtcome⟩ := build_eq_ok h
  obtain ⟨rfl, rfl⟩ := Prod.mk.inj houtcome
  rw [build_eq_scan] at h ⊢
  cases hscan : scan metadata policy file (.start metadata) with
  | error e =>
    rw [hscan] at h
    cases h
  | ok p =>
    rw [hscan] at h
    obtain ⟨hindex, hclass⟩ := Prod.mk.inj (Except.ok.inj h)
    have hstarted : p.streamClass.isSome := by
      obtain ⟨c, hc, -⟩ := hp₀.ofClass last (by rw [hentries]; simp)
      rw [hclass, hc]
      rfl
    have htiles : Tiles p.index.entries.toList file.size := by
      rw [hindex, ← hend]
      refine ⟨hp₀.tiles.chain, hp₀.tiles.first, ?_⟩
      rw [hentries, List.getLast?_concat]
      rfl
    have hgoes := scan_append trailing (valid_start metadata file) rfl hscan htiles (by
      rw [hindex]
      intro attributes hattributes
      obtain ⟨e, he, rfl⟩ := List.mem_map.1 hattributes
      exact hsizes e (Array.mem_toList_iff.1 he))
    rw [hgoes]
    cases hrest : scan metadata policy (file ++ trailing) p with
    | error e => exact isContradiction_of_scan hstarted hrest
    | ok p' =>
      rw [← hindex] at hentries
      obtain ⟨hsame, hentries'⟩ := entries_of_scan hentries hstarted hrest
      exact ⟨hsame.trans hclass, hentries'⟩

/-- A trace whose packets tell their size and when they begin, but not when they end. -/
def sizedTrace : Metadata :=
  let byte : IntegerType := .byte
  let context : StructType :=
    ⟨.byte, [("packet_size", .integer byte), ("timestamp_begin", .integer byte)]⟩
  { byteOrder := .little, streams := [{ id := 0, packetContext := some context }] }

/-- A file of one packet. -/
def sizedFile : ByteArray := ⟨#[24, 2, 7]⟩

/-- Another packet, and then a byte that is none. -/
def trailingBytes : ByteArray := ⟨#[16, 5, 255]⟩

theorem build_append_bytes :
    ∃ index streamClass last, build sizedTrace .error sizedFile = .ok (index, streamClass) ∧
      index.entries.toList = [] ++ [last] ∧ last.nextOffset = sizedFile.size ∧
      (∀ e ∈ index.entries, (PacketEntry.number? e.attributes "packet_size").isSome) ∧
      match build sizedTrace .error (sizedFile ++ trailingBytes) with
      | .error e => e.IsContradiction .error
      | .ok (index', streamClass') =>
        streamClass' = streamClass ∧ ∃ rest : List PacketEntry,
          index'.entries.toList = [] ++ rest.head?.elim last last.closedBy :: rest := by
  have hrun : (build sizedTrace .error sizedFile).toOption.map (fun (index, _) =>
      (index.entries.toList.map (·.nextOffset), index.entries.all fun e =>
        (PacketEntry.number? e.attributes "packet_size").isSome)) = some ([3], true) := by
    decide +kernel
  obtain ⟨⟨index, streamClass⟩, h, hrun⟩ := exists_eq_ok hrun
  obtain ⟨hends, hsizes⟩ := Prod.mk.inj hrun
  obtain ⟨last, hentries, hend⟩ := List.map_eq_singleton_iff.1 hends
  replace hsizes : ∀ e ∈ index.entries,
      (PacketEntry.number? e.attributes "packet_size").isSome := by
    simpa using Array.all_eq_true_iff_forall_mem.1 hsizes
  exact ⟨index, streamClass, last, h, hentries, hend, hsizes,
    build_append trailingBytes h hentries hend hsizes⟩

end PacketIndex

end CommonTrace
