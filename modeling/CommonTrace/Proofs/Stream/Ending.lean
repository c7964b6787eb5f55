import CommonTrace.Proofs.Stream.Seeking
import CommonTrace.Proofs.Stream.Tiling

/-!
# Reading comes to an end

A step opens every packet at most once, so it ends within two rounds for each packet that is left.
As the events of a packet take at least one bit of its content each, and a failure takes what is
left of it, a packet yields no more results than there are bits in its content behind its preamble,
and one for its lost events. So the end of a file is found after at most as many steps, and moving
to a time takes no more of them.
-/
namespace CommonTrace

open Decoding

namespace StreamFile

variable {f : StreamFile} {place : Nat} {entry : PacketEntry}

/-- The most results that the packets from a place on yield: one for the lost events of each of
them, and one for every bit of its content behind its preamble. -/
def mostResultsFrom (f : StreamFile) (place : Nat) : Nat :=
  total ((f.index.entries.toList.drop place).map fun entry =>
    1 + (entry.contentSize - entry.payloadStart))

theorem mostResultsFrom_eq (f : StreamFile) (h : place < f.index.entries.size) :
    f.mostResultsFrom place = 1 + (f.index.entries[place].contentSize -
      f.index.entries[place].payloadStart) + f.mostResultsFrom (place + 1) := by
  unfold mostResultsFrom
  rw [List.drop_eq_getElem_cons (by simpa using h), List.map_cons, total_cons,
    Array.getElem_toList]

theorem length_resultsOf_le (hf : f.Indexed) (hentry : f.index.entries[place]? = some entry) :
    (f.resultsOf place entry).length ≤ 1 + (entry.contentSize - entry.payloadStart) := by
  obtain ⟨preamble, fresh, p, halone⟩ : ∃ preamble fresh p,
      f.ReadsAlone place entry preamble fresh p := hf.readsAlone hentry
  obtain ⟨events, failure, hevents, hresults⟩ := halone.events
  have hle := hevents.length_le
  have hrecord : (p.lostRecord? f.metadata.byteOrder f.streamClass.id
      (f.endBefore place)).toList.length ≤ 1 := by
    cases p.lostRecord? f.metadata.byteOrder f.streamClass.id (f.endBefore place) with
    | none => exact Nat.zero_le _
    | some record => exact Nat.le_refl _
  rw [halone.entry_eq, halone.position] at hle
  rw [halone.results, hresults, List.length_append, List.length_append, List.length_map,
    List.length_map, List.length_map]
  omega

/-- No more results are left from a place on than the packets there yield at most. -/
theorem length_resultsFrom_le (hf : f.Indexed) (place : Nat) :
    (f.resultsFrom place).length ≤ f.mostResultsFrom place := by
  induction hn : f.index.entries.size - place generalizing place with
  | zero =>
    rw [resultsFrom_end (by omega)]
    exact Nat.zero_le _
  | succ n ih =>
    have hlt : place < f.index.entries.size := by omega
    have hfirst := length_resultsOf_le hf (Array.getElem?_eq_getElem hlt)
    have hrest := ih (place + 1) (by omega)
    rw [resultsFrom_eq hlt, List.length_append, mostResultsFrom_eq f hlt]
    exact Nat.add_le_add hfirst hrest

end StreamFile

namespace StreamReader

variable {f : StreamFile} {r : StreamReader} {rest : List (Except Error Event)} {n : Nat}

/-- Reading the next event, given up after a number of rounds. A round reads on in the open packet,
or opens the next one. -/
def advanceWithin : Nat → StreamReader → Option (Outcome × StreamReader)
  | 0, _ => none
  | n + 1, r =>
    match r.packet with
    | some p =>
      match r.readEvent p with
      | some result => some result
      | none => advanceWithin n { r with packet := none }
    | none =>
      if h : r.nextPacket < r.file.index.entries.size then
        let opened := r.file.openPacket r.base r.scopes r.nextPacket
          r.file.index.entries[r.nextPacket]
        let r' := { r with scopes := opened.2, packet := none, nextPacket := r.nextPacket + 1,
                           current := none }
        match opened.1 with
        | .error e => some (.error e, r')
        | .ok p =>
          match p.lostRecord? r.file.metadata.byteOrder r.file.streamClass.id
              (r.file.endBefore r.nextPacket) with
          | some record =>
            some (.ok (some record), { r' with packet := some p, current := some record })
          | none => advanceWithin n { r' with packet := some p }
      else some (.ok none, { r with packet := none, current := none })

/-- The packets that are left do not depend on the one that is open. -/
theorem readPackets_withPacket (r : StreamReader) (packet : Option OpenPacket) :
    { r with packet }.readPackets = r.readPackets := by
  rw [readPackets, readPackets]

/-- A round in an open packet. -/
theorem advanceWithin_withPacket (n : Nat) (r : StreamReader) (p : OpenPacket) :
    advanceWithin (n + 1) { r with packet := some p } =
      match r.readEvent p with
      | some result => some result
      | none => advanceWithin n { r with packet := none } := rfl

/-- From between packets, there are two rounds for every packet that is left, and one at the end. -/
theorem advanceWithin_between (r : StreamReader) : ∀ n, r.packet = none →
    2 * (r.file.index.entries.size - r.nextPacket) + 1 ≤ n →
      advanceWithin n r = some r.readPackets := by
  fun_induction readPackets r with
  | case1 r hplace opened r' e he =>
    intro n hpacket hn
    obtain ⟨n, rfl⟩ : ∃ m, n = m + 1 := ⟨n - 1, by omega⟩
    rw [advanceWithin, hpacket]
    dsimp only
    rw [dif_pos hplace, he]
  | case2 r hplace opened r' p hp record hrecord =>
    intro n hpacket hn
    obtain ⟨n, rfl⟩ : ∃ m, n = m + 1 := ⟨n - 1, by omega⟩
    rw [advanceWithin, hpacket]
    dsimp only
    rw [dif_pos hplace, hp]
    dsimp only
    rw [hrecord]
  | case3 r hplace opened r' p hp hnone step hstep =>
    -- one round opens the packet, and another one reads it
    intro n hpacket hn
    obtain ⟨n, rfl⟩ : ∃ m, n = m + 2 := ⟨n - 2, by omega⟩
    rw [advanceWithin, hpacket]
    dsimp only
    rw [dif_pos hplace, hp]
    dsimp only
    rw [hnone]
    refine (advanceWithin_withPacket n r' p).trans ?_
    rw [hstep]
  | case4 r hplace opened r' p hp hnone hread ih =>
    intro n hpacket hn
    obtain ⟨n, rfl⟩ : ∃ m, n = m + 2 := ⟨n - 2, by omega⟩
    rw [advanceWithin, hpacket]
    dsimp only
    rw [dif_pos hplace, hp]
    dsimp only
    rw [hnone]
    refine (advanceWithin_withPacket n r' p).trans ?_
    rw [hread]
    exact ih n rfl (by simp only [r']; omega)
  | case5 r hplace =>
    intro n hpacket hn
    obtain ⟨n, rfl⟩ : ∃ m, n = m + 1 := ⟨n - 1, by omega⟩
    rw [advanceWithin, hpacket]
    dsimp only
    rw [dif_neg hplace]

/-- A step ends within two rounds for every packet that is left, and two for the open one. -/
theorem advanceWithin_eq_advance
    (hn : 2 * (r.file.index.entries.size - r.nextPacket) + 2 ≤ n) :
    advanceWithin n r = some r.advance := by
  unfold advance
  cases hpacket : r.packet with
  | none => exact advanceWithin_between r n hpacket (by omega)
  | some p =>
    obtain ⟨n, rfl⟩ : ∃ m, n = m + 1 := ⟨n - 1, by omega⟩
    rw [advanceWithin, hpacket]
    dsimp only
    rw [Option.bind_some]
    cases r.readEvent p with
    | some step => rfl
    | none =>
      dsimp only
      rw [advanceWithin_between { r with packet := none } n rfl (by dsimp only; omega),
        readPackets_withPacket]

/-- The reader after a number of steps. -/
def steps (r : StreamReader) : Nat → StreamReader
  | 0 => r
  | n + 1 => r.advance.2.steps n

theorem outcome_eq_advance_steps (r : StreamReader) (n : Nat) :
    r.outcome n = (r.steps n).advance.1 := by
  induction n generalizing r with
  | zero => rfl
  | succ n ih => exact ih r.advance.2

theorem Pending.steps (hf : f.Indexed) (h : Pending f r rest) (n : Nat) :
    Pending f (r.steps n) (rest.drop n) := by
  induction n generalizing r rest with
  | zero => exact h
  | succ n ih =>
    have hnext := ih (advance_eq_firstOf hf h).2
    rwa [List.drop_tail] at hnext

theorem Settled.steps (hf : f.Indexed) (h : Settled f r) (n : Nat) : Settled f (r.steps n) := by
  induction n generalizing r with
  | zero => exact h
  | succ n ih => exact ih (h.advance hf)

theorem firstOf_eq_none : firstOf rest = .ok none ↔ rest = [] := by
  cases rest with
  | nil => exact iff_of_true rfl rfl
  | cons result rest => cases result <;> exact iff_of_false nofun nofun

/-- The end of a file is found by the step after those that yield what is left, and by none of
these. -/
theorem outcome_eq_none (hf : f.Indexed) (h : Pending f r rest) :
    r.outcome n = .ok none ↔ rest.length ≤ n := by
  rw [outcome_eq_advance_steps, (advance_eq_firstOf hf (h.steps hf n)).1, firstOf_eq_none,
    List.drop_eq_nil_iff]

/-- A reader that is moved to a time has the packets from the one that the search finds on before
it. -/
theorem Ready.pending_movedTo (h : Ready f r) (timestamp : Nat) :
    Pending f (r.movedTo timestamp) (f.resultsFrom (f.index.found timestamp)) := by
  obtain ⟨rfl, hbase, hrestores⟩ := h
  exact .between ⟨rfl, hbase, hrestores⟩ rfl

/-- Skipping takes one step for each event that is before the time, and then one more. -/
theorem skipBefore_eq_advance_steps (hf : f.Indexed) (h : Pending f r rest) (timestamp : Nat) :
    ∃ n ≤ rest.length, r.skipBefore timestamp = (r.steps n).advance ∧
      ∀ m < n, ∃ event, r.outcome m = .ok (some event) ∧ event.timestamp < timestamp := by
  fun_induction skipBefore r timestamp generalizing rest with
  | case1 r event r' hstep hlt hbefore ih =>
    have hspec := advance_spec hf h
    rw [hstep] at hspec
    obtain ⟨rest', rfl, hpending⟩ := hspec
    obtain ⟨n, hn, heq, hskipped⟩ := ih hpending
    obtain rfl : r.advance.2 = r' := congrArg Prod.snd hstep
    refine ⟨n + 1, Nat.succ_le_succ hn, heq, fun m hm => ?_⟩
    cases m with
    | zero => exact ⟨event, congrArg Prod.fst hstep, hbefore⟩
    | succ m => exact hskipped m (Nat.lt_of_succ_lt_succ hm)
  | case2 r event r' hstep hlt hbefore =>
    exact ⟨0, Nat.zero_le _, hstep.symm, fun m hm => absurd hm m.not_lt_zero⟩
  | case3 r hother => exact ⟨0, Nat.zero_le _, rfl, fun m hm => absurd hm m.not_lt_zero⟩

/-- A step from a place within a packet, or between packets: it ends, and what it takes begins where
the step before it ended. -/
structure StepsOn (f : StreamFile) (r : StreamReader) : Prop where
  placed : Placed f r
  ends : advanceWithin (2 * (f.index.entries.size - r.nextPacket) + 2) r = some r.advance
  takes : Takes f r r.advance

theorem Settled.stepsOn (hf : f.Indexed) (h : Settled f r) : StepsOn f r := by
  refine ⟨h.placed, ?_, h.takes hf⟩
  rw [← h.steady.ready.file]
  exact advanceWithin_eq_advance (Nat.le_refl _)

/-- However a reader of a file has been moved, a step ends, and so does moving to a time, which is a
number of steps that skip events before that time and one that does not. In each of these steps the
events tile the content of packets. From the start of the file, its end is found after at most one
result for each packet and for each bit of content behind its preamble, failures included, and never
before. -/
theorem stepsOn_of_reachable {metadata : Metadata} {policy : LostEventsPolicy} {input : Input}
    (h : StreamFile.ofInput metadata policy input = .ok f) (hr : Reachable f r) :
    StepsOn f r ∧
      (∀ timestamp, (∀ n, StepsOn f ((r.movedTo timestamp).steps n)) ∧
        ∃ n ≤ f.mostResultsFrom (f.index.found timestamp),
          r.seek timestamp = ((r.movedTo timestamp).steps n).advance ∧
          ∀ m < n, ∃ event, (r.movedTo timestamp).outcome m = .ok (some event) ∧
            event.timestamp < timestamp) ∧
      (∀ entry ∈ f.index.entries, entry.payloadStart ≤ entry.contentSize) ∧
      ∃ n ≤ f.mostResultsFrom 0, ∀ m, (start f).outcome m = .ok none ↔ n ≤ m := by
  obtain ⟨hf, -, -⟩ := StreamFile.ofInput_eq_ok h
  have hsettled := hr.settled hf
  refine ⟨hsettled.stepsOn hf, fun timestamp => ⟨fun n => ?_, ?_⟩, fun entry hentry => ?_, ?_⟩
  · exact ((hsettled.movedTo timestamp).steps hf n).stepsOn hf
  · obtain ⟨n, hn, hseek⟩ := skipBefore_eq_advance_steps hf
      (hsettled.steady.ready.pending_movedTo timestamp) timestamp
    exact ⟨n, hn.trans (StreamFile.length_resultsFrom_le hf _), hseek⟩
  · exact (hf.describes entry hentry).toFits.payload_le
  · exact ⟨(f.resultsFrom 0).length, StreamFile.length_resultsFrom_le hf 0,
      fun m => outcome_eq_none hf (pending_start f)⟩

/-- There are twelve bits of content behind the preamble of the packet. -/
theorem stepsOn_of_reachable_content :
    ∃ f r, StreamFile.ofInput contentTrace .clamp contentInput = .ok f ∧ Reachable f r ∧
      f.mostResultsFrom 0 = 13 ∧ StepsOn f r ∧
      (∃ n, r.seek 1 = ((r.movedTo 1).steps n).advance) ∧
      ∃ n ≤ 13, ∀ m, (start f).outcome m = .ok none ↔ n ≤ m := by
  have hrun : (StreamFile.ofInput contentTrace .clamp contentInput).toOption.map
      (·.mostResultsFrom 0) = some 13 := by
    decide +kernel
  obtain ⟨f, h, hmost⟩ := exists_eq_ok hrun
  have hr : Reachable f (start f).advance.2 := .advance .start
  obtain ⟨hsteps, hseek, -, hend⟩ := stepsOn_of_reachable h hr
  obtain ⟨n, -, heq, -⟩ := (hseek 1).2
  rw [hmost] at hend
  exact ⟨f, (start f).advance.2, h, hr, hmost, hsteps, ⟨n, heq⟩, hend⟩

end StreamReader

end CommonTrace
