import CommonTrace.Proofs.Packet.Entry
import Mathlib.Data.List.Chain

/-!
# Packets end to end

The packets of an index lie end to end from the start of the file on, and begin in this
order. Adding the packet that starts where the last one ends keeps it so.
-/
namespace CommonTrace

/-- The packet `next` lies directly behind `last` and does not begin earlier. -/
def PacketEntry.Precedes (last next : PacketEntry) : Prop :=
  next.offset = last.nextOffset ∧ last.timestampBegin ≤ next.timestampBegin

namespace PacketIndex

/-- Entries of packets that lie end to end from the start of a file up to the byte `stop`. -/
structure Tiles (entries : List PacketEntry) (stop : Nat) : Prop where
  chain : entries.IsChain PacketEntry.Precedes
  first : ∀ e ∈ entries.head?, e.offset = 0
  last : (entries.getLast?.map PacketEntry.nextOffset).getD 0 = stop

variable {index index' : PacketIndex} {entry : PacketEntry} {stop : Nat} {error : Error}

/-- Adding a packet may tell where the one before it ends, and changes nothing else. -/
theorem append_eq_ok (h : index.append entry = .ok index') :
    index.entries.toList = [] ∧ index'.entries.toList = [entry] ∨
      ∃ init last, index.entries.toList = init ++ [last] ∧
        last.timestampBegin ≤ entry.timestampBegin ∧
        index'.entries.toList = init ++ [last.closedBy entry, entry] := by
  unfold append at h
  split at h
  next hnone =>
    have hempty : index.entries = #[] := Array.back?_eq_none_iff.1 hnone
    cases h
    rw [hempty]
    exact .inl ⟨rfl, rfl⟩
  next last hlast =>
    obtain ⟨init, hentries⟩ : ∃ init : Array PacketEntry, index.entries = init.push last := by
      obtain ⟨init, hinit⟩ := Array.back?_eq_some_iff.1 hlast
      exact ⟨init, hinit⟩
    split at h
    · cases h
    next hle =>
      refine .inr ⟨init.toList, last, by simp [hentries], Nat.le_of_not_lt hle, ?_⟩
      unfold PacketEntry.closedBy
      split at h
      next hopen =>
        cases h
        simp [hopen, hentries]
      next hclosed =>
        cases h
        simp [hclosed, hentries]

theorem append_eq_error (h : index.append entry = .error error) :
    ∃ last ∈ index.entries, entry.timestampBegin < last.timestampBegin ∧
      error = .packetOrder entry.offset entry.timestampBegin last.timestampBegin := by
  unfold append at h
  split at h
  · cases h
  next last hlast =>
    split at h
    next hlt =>
      cases h
      exact ⟨last, Array.mem_of_back? hlast, hlt, rfl⟩
    · split at h
      · cases h
      · cases h

/-- A packet that is added behind another one may tell where that one ends. -/
theorem entries_of_append {init : List PacketEntry} {last : PacketEntry}
    (hentries : index.entries.toList = init ++ [last]) (h : index.append entry = .ok index') :
    index'.entries.toList = init ++ [last.closedBy entry, entry] := by
  rcases append_eq_ok h with ⟨hempty, -⟩ | ⟨init', last', hlast, -, hindex⟩
  · rw [hempty] at hentries
    simp at hentries
  · obtain ⟨rfl, hsame⟩ := List.append_inj' (hentries.symm.trans hlast) rfl
    obtain rfl := List.singleton_inj.1 hsame
    exact hindex

theorem Tiles.append (ht : Tiles index.entries.toList stop) (hoffset : entry.offset = stop)
    (h : index.append entry = .ok index') : Tiles index'.entries.toList entry.nextOffset := by
  rcases append_eq_ok h with ⟨hempty, hentry⟩ | ⟨init, last, hlast, hbegin, hentries⟩
  · have hstop := ht.last
    rw [hempty] at hstop
    rw [hentry]
    refine ⟨.singleton entry, ?_, rfl⟩
    rintro e he
    cases he
    exact hoffset.trans hstop.symm
  · obtain ⟨timestampEnd, hclosed⟩ := last.closedBy_eq entry
    have hchain := ht.chain
    have hfirst := ht.first
    have hstop := ht.last
    rw [hlast] at hchain hfirst hstop
    rw [List.getLast?_concat, Option.map_some, Option.getD_some] at hstop
    obtain ⟨hinit, -, hjoin⟩ := List.isChain_append.1 hchain
    rw [hentries]
    refine ⟨List.isChain_append.2 ⟨hinit, ?_, ?_⟩, ?_, ?_⟩
    · refine .cons_cons ⟨?_, ?_⟩ (.singleton entry)
      · rw [hclosed, hoffset, ← hstop]
        rfl
      · rw [hclosed]
        exact hbegin
    · intro before hbefore next hnext
      cases hnext
      have hprecedes := hjoin before hbefore last rfl
      rw [hclosed]
      exact hprecedes
    · intro e he
      cases init with
      | nil =>
        cases he
        have hfirst := hfirst last rfl
        rw [hclosed]
        exact hfirst
      | cons head rest => exact hfirst e he
    · simp

/-- Packets that begin in order of the file do so over any distance. -/
theorem Tiles.timestampBegin_le {entries : List PacketEntry} (h : Tiles entries stop) {i j : Nat}
    {last next : PacketEntry} (hij : i ≤ j) (hi : entries[i]? = some last)
    (hj : entries[j]? = some next) : last.timestampBegin ≤ next.timestampBegin := by
  have hchain : (entries.map PacketEntry.timestampBegin).IsChain (· ≤ ·) := by
    rw [List.isChain_map]
    exact h.chain.imp fun _ _ hprecedes => hprecedes.2
  obtain ⟨hilt, rfl⟩ := List.getElem?_eq_some_iff.1 hi
  obtain ⟨hjlt, rfl⟩ := List.getElem?_eq_some_iff.1 hj
  rcases Nat.eq_or_lt_of_le hij with rfl | hlt
  · exact Nat.le_refl _
  · have hle := List.pairwise_iff_getElem.1 hchain.pairwise i j (by simpa) (by simpa) hlt
    simpa using hle

theorem Tiles.offset_succ {entries : List PacketEntry} (h : Tiles entries stop) {i : Nat}
    {last next : PacketEntry} (hi : entries[i]? = some last) (hnext : entries[i + 1]? = some next) :
    next.offset = last.nextOffset := by
  obtain ⟨hilt, rfl⟩ := List.getElem?_eq_some_iff.1 hi
  obtain ⟨hnextlt, rfl⟩ := List.getElem?_eq_some_iff.1 hnext
  exact (h.chain.getElem i hnextlt).1

/-- Every entry of a longer index is an earlier one, closed by the new one or not, or is the
new one. -/
theorem forall_append {P : PacketEntry → Prop} (h : index.append entry = .ok index')
    (hall : ∀ e ∈ index.entries.toList, P e) (hentry : P entry)
    (hclosed : ∀ e, P e → e.timestampBegin ≤ entry.timestampBegin → P (e.closedBy entry)) :
    ∀ e ∈ index'.entries.toList, P e := by
  rcases append_eq_ok h with ⟨-, hentries⟩ | ⟨init, last, hlast, hbegin, hentries⟩
  · rw [hentries]
    intro e he
    rw [List.mem_singleton.1 he]
    exact hentry
  · rw [hlast] at hall
    rw [hentries]
    intro e he
    rcases List.mem_append.1 he with he | he
    · exact hall e (List.mem_append_left _ he)
    · rcases List.mem_cons.1 he with rfl | he
      · exact hclosed last (hall last (List.mem_append_right _ (List.mem_singleton.2 rfl))) hbegin
      · rw [List.mem_singleton.1 he]
        exact hentry

/-- What does not depend on the end of an entry is added for the new entry, and stays as it is for
the others. -/
theorem map_of_append {α : Type} {f : PacketEntry → α}
    (hf : ∀ (e : PacketEntry) (timestampEnd : Nat), f { e with timestampEnd } = f e)
    (h : index.append entry = .ok index') :
    index'.entries.toList.map f = index.entries.toList.map f ++ [f entry] := by
  rcases append_eq_ok h with ⟨hempty, hentries⟩ | ⟨init, last, hlast, -, hentries⟩
  · rw [hempty, hentries]
    rfl
  · obtain ⟨timestampEnd, heq⟩ := last.closedBy_eq entry
    rw [hlast, hentries, heq]
    simp [hf]

end PacketIndex

end CommonTrace
