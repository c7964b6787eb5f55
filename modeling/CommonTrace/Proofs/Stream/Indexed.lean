import CommonTrace.Proofs.Packet.Content
import CommonTrace.Proofs.Stream.Isolation
import CommonTrace.Stream.Reader

/-!
# Indexed files

The entries of a file's index describe the packets that its bytes hold, and all of them are of the
file's class. So the preamble of each packet can be decoded on its own, and what the packets yield
on their own is told by the file alone.
-/
namespace CommonTrace

open Decoding

namespace StreamFile

variable {f : StreamFile} {metadata : Metadata} {policy : LostEventsPolicy} {input : Input}
  {entry : PacketEntry} {place : Nat}

/-- A file whose packets have been indexed, all of them of its class. -/
structure Indexed (f : StreamFile) : Prop where
  describes : ∀ e ∈ f.index.entries, f.metadata.Describes f.bytes e
  ofClass : ∀ e ∈ f.index.entries, e.streamId = f.streamClass.id
  declared : f.metadata.stream? f.streamClass.id = some f.streamClass

theorem indexed_of_valid {p : PacketIndex.Progress} (hp : p.Valid f.metadata f.bytes)
    (hindex : p.index = f.index) (hclass : p.streamClass = some f.streamClass) : f.Indexed where
  describes e he := by
    rw [← hindex] at he
    exact hp.describes e (Array.mem_toList_iff.2 he)
  ofClass e he := by
    rw [← hindex] at he
    obtain ⟨c, hc, hid⟩ := hp.ofClass e (Array.mem_toList_iff.2 he)
    cases hc.symm.trans hclass
    exact hid
  declared := by
    obtain ⟨offset, preamble, ⟨window, s, hrun⟩, hfound⟩ := hp.classFound _ hclass
    rw [hfound]
    exact (Preamble.decode_eq_ok hrun).1

/-- A file that is opened has the path of the input and the index that its bytes yield. -/
theorem made_of_ofInput (h : ofInput metadata policy input = .ok f) :
    f.path = input.path ∧ f.metadata = metadata ∧ input.content = .ok f.bytes ∧
      PacketIndex.build metadata policy f.bytes = .ok (f.index, some f.streamClass) := by
  unfold ofInput at h
  cases hcontent : input.content with
  | error problem =>
    rw [hcontent] at h
    cases h
  | ok bytes =>
    rw [hcontent] at h
    replace h : (if bytes.size = 0 then _ else _) = Except.ok f := h
    split at h
    · cases h
    · cases hbuild : PacketIndex.build metadata policy bytes with
      | error e =>
        rw [hbuild] at h
        cases h
      | ok result =>
        obtain ⟨index, streamClass?⟩ := result
        rw [hbuild] at h
        cases streamClass? with
        | none => cases h
        | some streamClass =>
          replace h : (if index.entries.isEmpty then _ else _) = Except.ok f := h
          split at h
          · cases h
          · cases h
            exact ⟨rfl, rfl, rfl, hbuild⟩

theorem build_of_ofInput (h : ofInput metadata policy input = .ok f) :
    f.metadata = metadata ∧ input.content = .ok f.bytes ∧
      PacketIndex.build metadata policy f.bytes = .ok (f.index, some f.streamClass) :=
  (made_of_ofInput h).2

theorem ofInput_eq_ok (h : ofInput metadata policy input = .ok f) :
    f.Indexed ∧ f.metadata = metadata ∧ input.content = .ok f.bytes := by
  obtain ⟨rfl, hcontent, hbuild⟩ := build_of_ofInput h
  obtain ⟨p, hp, houtcome⟩ := PacketIndex.build_eq_ok hbuild
  obtain ⟨hindex, hclass⟩ := Prod.mk.inj houtcome
  exact ⟨indexed_of_valid hp hindex hclass, rfl, hcontent⟩

/-- The preamble of a packet of the file, decoded on its own. -/
theorem Indexed.decode (h : f.Indexed) (he : entry ∈ f.index.entries) :
    ∃ preamble s, Preamble.decode f.metadata entry.offset
      ⟨entry.cursor (f.bytesOf entry), f.metadata.baseScopes⟩ = .ok preamble s ∧
      preamble.payloadStart = entry.payloadStart ∧ preamble.streamClass = f.streamClass := by
  obtain ⟨preamble, s, hrun, hstream, hpayload, hid⟩ := (h.describes entry he).decode
  refine ⟨preamble, s, hrun, hpayload, ?_⟩
  rw [hid, h.ofClass entry he, h.declared] at hstream
  exact (Option.some.inj hstream).symm

/-- What the packet at a place yields on its own. -/
def resultsOf (f : StreamFile) (place : Nat) (entry : PacketEntry) : List (Except Error Event) :=
  f.metadata.packetResults place entry (f.bytesOf entry) (f.endBefore place)

/-- What the packets from a place on yield, each on its own. -/
def resultsFrom (f : StreamFile) (place : Nat) : List (Except Error Event) :=
  (f.index.entries.toList.zipIdx.drop place).flatMap fun (entry, place) => f.resultsOf place entry

theorem resultsFrom_eq (h : place < f.index.entries.size) :
    f.resultsFrom place =
      f.resultsOf place f.index.entries[place] ++ f.resultsFrom (place + 1) := by
  unfold resultsFrom
  rw [List.drop_eq_getElem_cons (by simpa using h)]
  simp

theorem resultsFrom_end (h : f.index.entries.size ≤ place) : f.resultsFrom place = [] := by
  unfold resultsFrom
  rw [List.drop_eq_nil_of_le (by simpa using h)]
  rfl

end StreamFile

end CommonTrace
