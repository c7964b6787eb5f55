import CommonTrace.Proofs.Packet.Scanning

/-!
# Counting lost events

A packet may hold a counter of all events that were discarded before it. What it adds to the last
counter before it are the events lost before the packet. Where counters never go backwards the sum
telescopes to the last of them, and it makes no difference what would be done if one did.
-/
namespace CommonTrace

variable {metadata : Metadata} {policy : LostEventsPolicy} {file : ByteArray}

namespace Metadata

variable {offset lostSoFar : Nat} {found : PacketEntry × StreamClass} {e : Error}

/-- A packet is found where counters may go backwards if it is where they must not. -/
theorem entryAlone_clamp (h : metadata.entryAlone .error file offset lostSoFar = .ok found) :
    metadata.entryAlone .clamp file offset lostSoFar = .ok found := by
  obtain ⟨preamble, hpreamble, hclass, hentry⟩ := entryAlone_eq_ok h
  rw [entryAlone_of_preamble hpreamble, PacketEntry.ofContext_clamp hentry, Except.map, hclass]

/-- Data that is no packet is none whether or not counters may go backwards. -/
theorem entryAlone_clamp_error (h : metadata.entryAlone .error file offset lostSoFar = .error e)
    (htrailing : e.isTrailing) :
    metadata.entryAlone .clamp file offset lostSoFar = .error e := by
  cases hpreamble : metadata.preambleAlone file offset with
  | error e' =>
    unfold entryAlone at h ⊢
    rw [hpreamble] at h ⊢
    exact h
  | ok preamble =>
    rw [entryAlone_of_preamble hpreamble] at h ⊢
    cases hentry : PacketEntry.ofContext offset preamble.streamClass.id preamble.payloadStart
      preamble.fields file.size lostSoFar .error with
    | error e' =>
      rw [hentry] at h
      cases h
      rw [PacketEntry.ofContext_clamp_error hentry htrailing]
      rfl
    | ok entry =>
      rw [hentry] at h
      cases h

/-- The events lost before a packet are what its counter adds to the last one. -/
theorem lostEvents_of_entryAlone
    (h : metadata.entryAlone policy file offset lostSoFar = .ok found) :
    found.1.lostEvents = found.1.eventsDiscarded.elim 0 (· - lostSoFar) ∧
      (policy = .error → lostSoFar ≤ found.1.eventsDiscarded.getD lostSoFar) := by
  obtain ⟨preamble, -, -, hentry⟩ := entryAlone_eq_ok h
  obtain ⟨-, -, hlost⟩ := PacketEntry.ofContext_eq_ok_iff.1 hentry
  exact PacketEntry.lostBefore_eq_ok_iff.1 hlost

end Metadata

namespace PacketIndex

variable {p p' : Progress} {more : Bool} {index index' : PacketIndex} {entry : PacketEntry}
  {streamClass : Option StreamClass}

theorem scanStep_clamp (h : scanStep metadata .error file p = .ok (p', more)) :
    scanStep metadata .clamp file p = .ok (p', more) := by
  unfold scanStep at h ⊢
  cases halone : metadata.entryAlone .error file p.offset p.lostSoFar with
  | error e =>
    rw [halone] at h
    rw [Metadata.entryAlone_clamp_error halone (Progress.afterFailure_eq_ok h).2.2.2]
    exact h
  | ok found =>
    rw [halone] at h
    rw [Metadata.entryAlone_clamp halone]
    exact h

theorem scan_clamp (h : scan metadata .error file p = .ok p') :
    scan metadata .clamp file p = .ok p' := by
  fun_induction scan metadata .error file p with
  | case1 p hlt e hstep => cases h
  | case2 p hlt p₁ hstep =>
    cases h
    exact scan_of_last hlt (scanStep_clamp hstep)
  | case3 p hlt p₁ hstep hmore ih =>
    rw [scan_of_more hlt (scanStep_clamp hstep)]
    exact ih h
  | case4 p hge =>
    cases h
    exact scan_of_end (Nat.not_lt.1 hge)

/-- The events lost so far are those that the last counter tells of. -/
theorem lostEvents_of_scan (hp : p.index.lostEvents = p.lostSoFar)
    (h : scan metadata .error file p = .ok p') : p'.index.lostEvents = p'.lostSoFar := by
  fun_induction scan metadata .error file p with
  | case1 p hlt e hstep => cases h
  | case2 p hlt p₁ hstep =>
    cases h
    obtain ⟨found, rfl⟩ := scanStep_eq_last hstep
    exact hp
  | case3 p hlt p₁ hstep hmore ih =>
    refine ih ?_ h
    obtain ⟨entry, found, index, halone, -, -, happend, rfl⟩ := scanStep_eq_more hstep
    obtain ⟨hlost, hle⟩ := Metadata.lostEvents_of_entryAlone halone
    have hmap : index.entries.toList.map PacketEntry.lostEvents =
        p.index.entries.toList.map PacketEntry.lostEvents ++ [entry.lostEvents] :=
      map_of_append (fun _ _ => rfl) happend
    unfold lostEvents at hp
    dsimp only [Progress.added, lostEvents] at hle hlost ⊢
    rw [hmap, total_append, hp, hlost]
    -- the counter is not below the last one, so that nothing is cut off
    replace hle := hle rfl
    cases hcounter : entry.eventsDiscarded with
    | none => rfl
    | some counter =>
      rw [hcounter] at hle
      simp only [Option.elim_some, Option.getD_some, total_cons, total_nil] at hle ⊢
      omega
  | case4 p hge =>
    cases h
    exact hp

/-- The counter that was declared last, if any of some packets declares one. -/
def lastCounter (entries : List PacketEntry) : Option Nat :=
  (entries.filterMap (·.eventsDiscarded)).getLast?

theorem lastCounter_concat (entries : List PacketEntry) (entry : PacketEntry) :
    lastCounter (entries ++ [entry]) = entry.eventsDiscarded.or (lastCounter entries) := by
  unfold lastCounter
  rw [List.filterMap_append]
  cases hcounter : entry.eventsDiscarded with
  | none => simp [hcounter]
  | some counter => simp [hcounter]

theorem lastCounter_congr {entries entries' : List PacketEntry}
    (h : entries.map (·.eventsDiscarded) = entries'.map (·.eventsDiscarded)) :
    lastCounter entries = lastCounter entries' := by
  have hcounters (entries : List PacketEntry) :
      entries.filterMap (·.eventsDiscarded) = (entries.map (·.eventsDiscarded)).filterMap id := by
    rw [List.filterMap_map]
    rfl
  unfold lastCounter
  rw [hcounters, hcounters, h]

/-- The events lost before each of some packets are what its counter adds to the last one that was
declared before it, and none if it has no counter. -/
def CountsLosses (entries : List PacketEntry) : Prop :=
  ∀ (i : Nat) (e : PacketEntry), entries[i]? = some e →
    e.lostEvents = e.eventsDiscarded.elim 0 (· - (lastCounter (entries.take i)).getD 0)

theorem CountsLosses.concat {entries : List PacketEntry} (h : CountsLosses entries)
    (hlost : entry.lostEvents =
      entry.eventsDiscarded.elim 0 (· - (lastCounter entries).getD 0)) :
    CountsLosses (entries ++ [entry]) := by
  intro i e hi
  rcases Nat.lt_or_ge i entries.length with hlt | hge
  · rw [List.getElem?_append_left hlt] at hi
    rw [List.take_append_of_le_length (Nat.le_of_lt hlt)]
    exact h i e hi
  · obtain ⟨hlt, -⟩ := List.getElem?_eq_some_iff.1 hi
    rw [List.length_append, List.length_singleton] at hlt
    obtain rfl : i = entries.length := by omega
    rw [List.getElem?_concat_length] at hi
    cases hi
    rw [List.take_left]
    exact hlost

theorem CountsLosses.congr {entries entries' : List PacketEntry} (h : CountsLosses entries)
    (hcounters : entries'.map (·.eventsDiscarded) = entries.map (·.eventsDiscarded))
    (hlost : entries'.map (·.lostEvents) = entries.map (·.lostEvents)) :
    CountsLosses entries' := by
  intro i e' hi
  have hcounter := congrArg (·[i]?) hcounters
  have hlosti := congrArg (·[i]?) hlost
  simp only [List.getElem?_map, hi, Option.map_some] at hcounter hlosti
  obtain ⟨e, he, heq⟩ := Option.map_eq_some_iff.1 hcounter.symm
  rw [he, Option.map_some, Option.some_inj] at hlosti
  have hbefore : lastCounter (entries'.take i) = lastCounter (entries.take i) := by
    apply lastCounter_congr
    rw [List.map_take, List.map_take, hcounters]
  rw [hlosti, ← heq, hbefore]
  exact h i e he

/-- The last counter is kept, and the losses are counted from it. -/
structure Progress.Counted (p : Progress) : Prop where
  lostSoFar : p.lostSoFar = (lastCounter p.index.entries.toList).getD 0
  counts : CountsLosses p.index.entries.toList

theorem counted_start (metadata : Metadata) : (Progress.start metadata).Counted where
  lostSoFar := rfl
  counts i e he := by simp [Progress.start] at he

theorem Progress.Counted.added {found : StreamClass} (hp : p.Counted)
    (halone : metadata.entryAlone policy file p.offset p.lostSoFar = .ok (entry, found))
    (happend : p.index.append entry = .ok index) : (p.added entry found index).Counted := by
  have hcounters : index.entries.toList.map (·.eventsDiscarded) =
      (p.index.entries.toList ++ [entry]).map (·.eventsDiscarded) := by
    rw [List.map_append]
    exact map_of_append (fun _ _ => rfl) happend
  have hlost : index.entries.toList.map (·.lostEvents) =
      (p.index.entries.toList ++ [entry]).map (·.lostEvents) := by
    rw [List.map_append]
    exact map_of_append (fun _ _ => rfl) happend
  constructor
  · dsimp only [Progress.added]
    rw [lastCounter_congr hcounters, lastCounter_concat, hp.lostSoFar]
    cases entry.eventsDiscarded with
    | none => rfl
    | some counter => rfl
  · refine (hp.counts.concat ?_).congr hcounters hlost
    rw [← hp.lostSoFar]
    exact (Metadata.lostEvents_of_entryAlone halone).1

theorem counted_of_scan (hp : p.Counted) (h : scan metadata policy file p = .ok p') :
    p'.Counted := by
  fun_induction scan metadata policy file p with
  | case1 p hlt e hstep => cases h
  | case2 p hlt p₁ hstep =>
    cases h
    obtain ⟨found, rfl⟩ := scanStep_eq_last hstep
    exact ⟨hp.lostSoFar, hp.counts⟩
  | case3 p hlt p₁ hstep hmore ih =>
    obtain ⟨entry, found, index, halone, -, -, happend, rfl⟩ := scanStep_eq_more hstep
    exact ih (hp.added halone happend) h
  | case4 p hge =>
    cases h
    exact hp

/-- A file that is accepted where counters must not go backwards has the same index where they may,
and has lost as many events as its last counter tells of. -/
theorem build_clamp (h : build metadata .error file = .ok (index, streamClass)) :
    build metadata .clamp file = .ok (index, streamClass) ∧
      index.lostEvents = (lastCounter index.entries.toList).getD 0 := by
  rw [build_eq_scan] at h ⊢
  cases hscan : scan metadata .error file (.start metadata) with
  | error e =>
    rw [hscan] at h
    cases h
  | ok p =>
    rw [hscan] at h
    rw [scan_clamp hscan]
    have hcounted := (counted_of_scan (counted_start metadata) hscan).lostSoFar
    have hlost := lostEvents_of_scan rfl hscan
    cases h
    exact ⟨rfl, hlost.trans hcounted⟩

/-- Losses are counted from the last counter on, whatever is done where a counter goes
backwards. -/
theorem countsLosses_of_build (h : build metadata policy file = .ok (index, streamClass)) :
    CountsLosses index.entries.toList := by
  rw [build_eq_scan] at h
  cases hscan : scan metadata policy file (.start metadata) with
  | error e =>
    rw [hscan] at h
    cases h
  | ok p =>
    rw [hscan] at h
    have hcounted := (counted_of_scan (counted_start metadata) hscan).counts
    cases h
    exact hcounted

end PacketIndex

end CommonTrace
