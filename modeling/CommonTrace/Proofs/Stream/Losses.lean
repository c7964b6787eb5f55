import CommonTrace.Proofs.Packet.Losses
import CommonTrace.Proofs.Stream.Seeking

/-!
# Reporting lost events

A packet before which events were lost yields a record of them before any of its events, and no
packet yields another record. So the events that a file accounts for are those that are decoded
and those that its index tells of.
-/
namespace CommonTrace

open Decoding

/-- An event accounts for itself, or for the lost events that it records. -/
theorem total_count (events : List Event) :
    total (events.map Event.count) =
      (events.filter (·.lostEvents?.isNone)).length +
        total (events.filterMap Event.lostEvents?) := by
  induction events with
  | nil => rfl
  | cons event rest ih =>
    have hcount : event.count = event.lostEvents?.getD 1 := rfl
    cases hlost : event.lostEvents? with
    | none =>
      simp [hcount, hlost, ih]
      omega
    | some lost =>
      simp [hcount, hlost, ih]
      omega

namespace StreamFile

open StreamReader

variable {f : StreamFile} {place : Nat} {entry : PacketEntry} {event : Event}

/-- Whether the events of a packet are a record of the events lost before it, if there are any, and
then events that are decoded. -/
def Reports (entry : PacketEntry) (events : List Event) : Prop :=
  ∃ records decoded, events = records ++ decoded ∧
    records.map (fun record => (record.lostEvents?, record.timestamp)) =
      (if entry.lostEvents = 0 then [] else [(some entry.lostEvents, entry.timestampBegin)]) ∧
    ∀ event ∈ decoded, event.lostEvents? = none

theorem Reports.total_lost {events : List Event} (h : Reports entry events) :
    total (events.filterMap Event.lostEvents?) = entry.lostEvents := by
  obtain ⟨records, decoded, rfl, hrecords, hdecoded⟩ := h
  have hnone : decoded.filterMap Event.lostEvents? = [] := List.filterMap_eq_nil_iff.2 hdecoded
  have hsome : records.filterMap Event.lostEvents? =
      (records.map fun record => (record.lostEvents?, record.timestamp)).filterMap Prod.fst := by
    rw [List.filterMap_map]
    rfl
  rw [List.filterMap_append, hnone, List.append_nil, hsome, hrecords]
  split
  next hzero => rw [hzero]; rfl
  next => rfl

theorem Indexed.reports (hf : f.Indexed) (hentry : f.index.entries[place]? = some entry) :
    Reports entry (events (f.resultsOf place entry)) := by
  obtain ⟨preamble, fresh, p, halone⟩ : ∃ preamble fresh p,
      f.ReadsAlone place entry preamble fresh p := hf.readsAlone hentry
  have hevents : events (f.resultsOf place entry) =
      (p.lostRecord? f.metadata.byteOrder f.streamClass.id (f.endBefore place)).toList
        ++ events (p.results f.streamClass fresh) := by
    rw [halone.results, events_append]
    cases p.lostRecord? f.metadata.byteOrder f.streamClass.id (f.endBefore place) with
    | none => rfl
    | some record => rfl
  refine ⟨_, _, hevents, ?_, fun event hevent => ?_⟩
  · unfold OpenPacket.lostRecord?
    rw [halone.entry_eq]
    split
    · rfl
    · rfl
  · exact (OpenPacket.packet_of_mem_results (mem_events.1 hevent)).2

theorem place_of_mem_resultsFrom (h : .ok event ∈ f.resultsFrom place) :
    place ≤ event.packet ∧ event.packet < f.index.entries.size := by
  unfold resultsFrom at h
  obtain ⟨⟨entry, place'⟩, hmem, hevent⟩ := List.mem_flatMap.1 h
  obtain ⟨i, hi, heq⟩ := List.getElem_of_mem hmem
  rw [packet_of_mem_resultsOf hevent]
  simp only [List.getElem_drop, List.getElem_zipIdx, Prod.mk.injEq] at heq
  simp only [List.length_drop, List.length_zipIdx, Array.length_toList] at hi
  omega

/-- The events of a file that are of one packet are those that the packet yields. -/
theorem filter_events (f : StreamFile) (hplace : place < f.index.entries.size) :
    (events (f.resultsFrom 0)).filter (·.packet = place) =
      events (f.resultsOf place f.index.entries[place]) := by
  obtain ⟨before, hbefore, hplaces⟩ := f.exists_resultsFrom_zero (Nat.le_of_lt hplace)
  have hfirst : (events before).filter (·.packet = place) = [] := by
    rw [List.filter_eq_nil_iff]
    intro event hevent
    have := hplaces event (mem_events.1 hevent)
    simp only [decide_eq_true_eq]
    omega
  have hlast : (events (f.resultsFrom (place + 1))).filter (·.packet = place) = [] := by
    rw [List.filter_eq_nil_iff]
    intro event hevent
    have := place_of_mem_resultsFrom (mem_events.1 hevent)
    simp only [decide_eq_true_eq]
    omega
  have hown : (events (f.resultsOf place f.index.entries[place])).filter (·.packet = place) =
      events (f.resultsOf place f.index.entries[place]) := by
    rw [List.filter_eq_self]
    intro event hevent
    simpa using packet_of_mem_resultsOf (mem_events.1 hevent)
  rw [hbefore, resultsFrom_eq hplace, events_append, events_append, List.filter_append,
    List.filter_append, hfirst, hown, hlast, List.nil_append, List.append_nil]

/-- The lost events that packets report are those that the index tells of. -/
theorem total_lost_resultsFrom (hf : f.Indexed) (hplace : place ≤ f.index.entries.size) :
    total ((events (f.resultsFrom place)).filterMap Event.lostEvents?) =
      total ((f.index.entries.toList.drop place).map (·.lostEvents)) := by
  induction hn : f.index.entries.size - place generalizing place with
  | zero =>
    have hend : f.index.entries.size ≤ place := by omega
    rw [resultsFrom_end hend, List.drop_eq_nil_of_le (by simpa using hend)]
    rfl
  | succ n ih =>
    have hlt : place < f.index.entries.size := by omega
    have hreports := hf.reports (Array.getElem?_eq_getElem hlt)
    have hdrop : f.index.entries.toList.drop place =
        f.index.entries[place] :: f.index.entries.toList.drop (place + 1) :=
      List.drop_eq_getElem_cons (by simpa using hlt)
    rw [resultsFrom_eq hlt, events_append, List.filterMap_append, total_append,
      hreports.total_lost, ih hlt (by omega), hdrop]
    rfl

/-- Whether some events of a file report its lost events: each of them is of a packet of the index,
those of a packet start with the record of the events lost before it, and together they account for
the events that are decoded and those that the index tells of. -/
structure ReportsLosses (f : StreamFile) (events : List Event) : Prop where
  packet_lt : ∀ event ∈ events, event.packet < f.index.entries.size
  reports : ∀ place entry, f.index.entries[place]? = some entry →
    Reports entry (events.filter (·.packet = place))
  total_count : total (events.map Event.count) =
    (events.filter (·.lostEvents?.isNone)).length + f.index.lostEvents

theorem reportsLosses_of_indexed (hf : f.Indexed) :
    f.ReportsLosses (events (f.resultsFrom 0)) where
  packet_lt event hevent := (place_of_mem_resultsFrom (mem_events.1 hevent)).2
  reports place entry hentry := by
    obtain ⟨hplace, rfl⟩ := Array.getElem?_eq_some_iff.1 hentry
    rw [filter_events f hplace]
    exact hf.reports (Array.getElem?_eq_getElem hplace)
  total_count := by
    rw [CommonTrace.total_count, total_lost_resultsFrom hf (Nat.zero_le _)]
    rfl

end StreamFile

/-- Lost events are accounted for once. A file that is accepted where counters must not go backwards
has the same index where they may, and has lost as many events as its last counter tells of. The
events lost before a packet are what its counter adds to the last one. Reading the file, past all
failures, reports them. -/
theorem StreamReader.drain_losses (metadata : Metadata) :
    (∀ file index streamClass,
      PacketIndex.build metadata .error file = .ok (index, streamClass) →
        PacketIndex.build metadata .clamp file = .ok (index, streamClass) ∧
          index.lostEvents = (PacketIndex.lastCounter index.entries.toList).getD 0) ∧
    (∀ file index streamClass,
      PacketIndex.build metadata .clamp file = .ok (index, streamClass) →
        PacketIndex.CountsLosses index.entries.toList) ∧
    ∀ policy input f, StreamFile.ofInput metadata policy input = .ok f →
      f.ReportsLosses (events (start f).drain.1) := by
  refine ⟨fun file index streamClass h => PacketIndex.build_clamp h,
    fun file index streamClass h => PacketIndex.countsLosses_of_build h, fun policy input f h => ?_⟩
  obtain ⟨hf, -, -⟩ := StreamFile.ofInput_eq_ok h
  rw [drain_eq hf (pending_start f)]
  exact StreamFile.reportsLosses_of_indexed hf

/-- A trace whose packets have a counter of discarded events, and events that are a byte each. -/
def lossyTrace : Metadata :=
  let byte : IntegerType := .byte
  let context : StructType :=
    ⟨.byte, [("packet_size", .integer byte), ("events_discarded", .integer byte)]⟩
  let fields : StructType := ⟨.byte, [("value", .integer byte)]⟩
  { byteOrder := .little,
    streams := [{ id := 0, packetContext := some context,
                  events := [{ id := 0, name := "byte", fields := some fields }] }] }

/-- A file of three packets with an event each. One event was lost before the first packet, none
before the second, and four before the third. -/
def lossyInput : Input :=
  { path := "stream", content := .ok ⟨#[24, 1, 7, 24, 1, 8, 24, 5, 9]⟩ }

theorem StreamReader.drain_losses_three :
    ∃ f, StreamFile.ofInput lossyTrace .error lossyInput = .ok f ∧
      PacketIndex.build lossyTrace .error f.bytes = .ok (f.index, some f.streamClass) ∧
      PacketIndex.build lossyTrace .clamp f.bytes = .ok (f.index, some f.streamClass) ∧
      f.index.entries.toList.map (·.lostEvents) = [1, 0, 4] ∧
      f.index.lostEvents = (PacketIndex.lastCounter f.index.entries.toList).getD 0 ∧
      PacketIndex.CountsLosses f.index.entries.toList ∧
      f.ReportsLosses (events (start f).drain.1) ∧
      total ((events (start f).drain.1).map Event.count) = 8 := by
  have hrun : (StreamFile.ofInput lossyTrace .error lossyInput).toOption.map (fun f =>
      (f.index.entries.toList.map (·.lostEvents),
        total ((events (start f).drain.1).map Event.count))) = some ([1, 0, 4], 8) := by
    decide +kernel
  obtain ⟨hnever, hcounted, hreported⟩ := drain_losses lossyTrace
  obtain ⟨f, h, hrun⟩ := exists_eq_ok hrun
  obtain ⟨hlost, hcount⟩ := Prod.mk.inj hrun
  obtain ⟨-, -, hbuild⟩ := StreamFile.build_of_ofInput h
  obtain ⟨hclamp, htotal⟩ := hnever _ _ _ hbuild
  exact ⟨f, h, hbuild, hclamp, hlost, htotal, hcounted _ _ _ hclamp, hreported _ _ f h, hcount⟩

end CommonTrace
