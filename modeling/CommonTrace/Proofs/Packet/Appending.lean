import CommonTrace.Proofs.Packet.Tiling
import Mathlib.Data.List.Induction

/-!
# Adding packets one by one

Packets are offered to an index one after the other. One that begins before the last one that was
accepted is rejected, and then the index stays as it was, with an end of its last entry that is not
known as well. All others are kept as they were offered, in this order; only an end that was not
known becomes the begin of the packet that was accepted next. So the entries of an index are told by
the packets that were offered, and their begins never decrease.
-/
namespace CommonTrace

namespace PacketEntry

variable {e : PacketEntry}

/-- The end of a packet once the one accepted after it, if there is one, is known. -/
def endBefore (e : PacketEntry) (next? : Option PacketEntry) : Nat :=
  if e.timestampEnd = openEnd then (next?.map (·.timestampBegin)).getD openEnd
  else e.timestampEnd

theorem endBefore_none (e : PacketEntry) : e.endBefore none = e.timestampEnd := by
  unfold endBefore
  split
  next h => rw [h, Option.map_none, Option.getD_none]
  · rfl

theorem le_endBefore {next? : Option PacketEntry} (hends : e.timestampBegin ≤ e.timestampEnd)
    (hnext : ∀ next, next? = some next → e.timestampBegin ≤ next.timestampBegin) :
    e.timestampBegin ≤ e.endBefore next? := by
  cases next? with
  | none => rwa [endBefore_none]
  | some next =>
    unfold endBefore
    split
    · exact hnext next rfl
    · exact hends

theorem closedBy_eq_endBefore (e next : PacketEntry) :
    e.closedBy next = { e with timestampEnd := e.endBefore (some next) } := by
  unfold closedBy endBefore
  by_cases h : e.timestampEnd = openEnd
  · rw [if_pos (by simpa [isOpenEnded] using h), if_pos h, Option.map_some, Option.getD_some]
  · rw [if_neg (by simpa [isOpenEnded] using h), if_neg h]

end PacketEntry

namespace PacketIndex

variable {index index' : PacketIndex} {entry last : PacketEntry} {init kept : List PacketEntry}
  {error : Error}

/-- Sets the end of the last entry. -/
def reviseEnd (timestampEnd : Nat) : EStateM Error PacketIndex Unit :=
  modify fun index => ⟨index.entries.modify (index.entries.size - 1) ({ · with timestampEnd })⟩

/-- Puts an entry behind the last one. -/
def put (entry : PacketEntry) : EStateM Error PacketIndex Unit :=
  modify fun index => ⟨index.entries.push entry⟩

/-- Adds the next packet to an index that is changed in place: its begin is compared first, then the
end of the last entry is set if it is not known, then the packet is put behind it. -/
def appendInPlace (entry : PacketEntry) : EStateM Error PacketIndex Unit := do
  match (← get).entries.back? with
  | none => put entry
  | some last =>
    if entry.timestampBegin < last.timestampBegin then
      throw (.packetOrder entry.offset entry.timestampBegin last.timestampBegin)
    if last.isOpenEnded then
      reviseEnd entry.timestampBegin
    put entry

/-- An index is changed in place to the one that adding the packet yields, and not at all if the
packet is rejected. -/
theorem appendInPlace_eq (entry : PacketEntry) (index : PacketIndex) :
    appendInPlace entry index =
      match index.append entry with
      | .ok index' => .ok () index'
      | .error e => .error e index := by
  have hstart : appendInPlace entry index =
      (match index.entries.back? with
        | none => put entry
        | some last => do
          if entry.timestampBegin < last.timestampBegin then
            throw (.packetOrder entry.offset entry.timestampBegin last.timestampBegin)
          if last.isOpenEnded then
            reviseEnd entry.timestampBegin
          put entry : EStateM Error PacketIndex Unit) index := rfl
  rw [hstart, append]
  cases hlast : index.entries.back? with
  | none => rfl
  | some last =>
    dsimp only
    by_cases hlt : entry.timestampBegin < last.timestampBegin
    · rw [if_pos hlt, if_pos hlt]
      rfl
    · rw [if_neg hlt, if_neg hlt]
      by_cases hopen : last.isOpenEnded = true
      · have hrevised : index.entries.modify (index.entries.size - 1)
            ({ · with timestampEnd := entry.timestampBegin }) =
              index.entries.pop.push { last with timestampEnd := entry.timestampBegin } := by
          obtain ⟨init, hinit⟩ := Array.back?_eq_some_iff.1 hlast
          grind
        rw [if_pos hopen, if_pos hopen, ← hrevised]
        rfl
      · rw [if_neg hopen, if_neg hopen]
        rfl

/-- Offers a packet to an index, which is left as adding the packet leaves it. -/
def offer (index : PacketIndex) (entry : PacketEntry) : PacketIndex :=
  match appendInPlace entry index with
  | .ok _ index' => index'
  | .error _ index' => index'

/-- The packets kept once another one was offered behind them. -/
def accept (kept : List PacketEntry) (entry : PacketEntry) : List PacketEntry :=
  match kept.getLast? with
  | none => [entry]
  | some last => if entry.timestampBegin < last.timestampBegin then kept else kept ++ [entry]

/-- The packets that are accepted of those that were offered, in order. -/
def accepted (offered : List PacketEntry) : List PacketEntry := offered.foldl accept []

/-- Entries that lie behind one another: an end that was not known is where the next packet
begins. -/
def closeEnds : List PacketEntry → List PacketEntry
  | [] => []
  | entry :: rest => rest.head?.elim entry entry.closedBy :: closeEnds rest

theorem getElem?_closeEnds (entries : List PacketEntry) (i : Nat) :
    (closeEnds entries)[i]? =
      entries[i]?.map fun e => { e with timestampEnd := e.endBefore entries[i + 1]? } := by
  induction entries generalizing i with
  | nil => simp [closeEnds]
  | cons entry rest ih =>
    cases i with
    | zero =>
      cases rest with
      | nil => simp [closeEnds, PacketEntry.endBefore_none]
      | cons next rest => simp [closeEnds, PacketEntry.closedBy_eq_endBefore]
    | succ i => simpa [closeEnds] using ih i

/-- A packet that is put behind others may tell where the last one of them ends. -/
theorem closeEnds_concat (init : List PacketEntry) (last entry : PacketEntry) :
    ∃ closed, closeEnds (init ++ [last]) = closed ++ [last] ∧
      closeEnds (init ++ [last] ++ [entry]) = closed ++ [last.closedBy entry, entry] := by
  induction init with
  | nil => exact ⟨[], rfl, rfl⟩
  | cons first init ih =>
    obtain ⟨closed, hclosed, hnext⟩ := ih
    have hhead : (init ++ [last] ++ [entry]).head? = (init ++ [last]).head? := by
      cases init <;> rfl
    refine ⟨(init ++ [last]).head?.elim first first.closedBy :: closed, ?_, ?_⟩
    · rw [List.cons_append, closeEnds, hclosed, List.cons_append]
    · rw [List.cons_append, List.cons_append, closeEnds, hnext, hhead, List.cons_append]

/-- A packet that does not begin before the last one is added behind it. -/
theorem append_of_last {index : PacketIndex} {init : List PacketEntry} {last entry : PacketEntry}
    (hentries : index.entries.toList = init ++ [last])
    (hle : last.timestampBegin ≤ entry.timestampBegin) :
    ∃ index', index.append entry = .ok index' ∧
      index'.entries.toList = init ++ [last.closedBy entry, entry] := by
  cases happend : index.append entry with
  | ok index' => exact ⟨index', rfl, entries_of_append hentries happend⟩
  | error e =>
    have hback : index.entries.back? = some last := by
      rw [← Array.getLast?_toList, hentries, List.getLast?_concat]
    unfold append at happend
    rw [hback] at happend
    dsimp only at happend
    rw [if_neg (Nat.not_lt.2 hle)] at happend
    split at happend
    · cases happend
    · cases happend

/-- A packet that begins before the last one is rejected. -/
theorem append_of_earlier (hentries : index.entries.toList = init ++ [last])
    (hlt : entry.timestampBegin < last.timestampBegin) :
    index.append entry =
      .error (.packetOrder entry.offset entry.timestampBegin last.timestampBegin) := by
  have hback : index.entries.back? = some last := by
    rw [← Array.getLast?_toList, hentries, List.getLast?_concat]
  unfold append
  rw [hback]
  exact if_pos hlt

/-- A packet is rejected if it begins before the last one that was accepted, and is kept behind it
otherwise. -/
theorem append_of_kept (h : index.entries.toList = closeEnds kept) (entry : PacketEntry) :
    (∃ last, kept.getLast? = some last ∧ entry.timestampBegin < last.timestampBegin ∧
      accept kept entry = kept ∧ index.append entry =
        .error (.packetOrder entry.offset entry.timestampBegin last.timestampBegin)) ∨
    ((∀ last, kept.getLast? = some last → last.timestampBegin ≤ entry.timestampBegin) ∧
      accept kept entry = kept ++ [entry] ∧
      ∃ index', index.append entry = .ok index' ∧
        index'.entries.toList = closeEnds (kept ++ [entry])) := by
  rcases List.eq_nil_or_concat kept with rfl | ⟨init, last, rfl⟩
  · have hempty : index.entries = #[] := Array.toList_eq_nil_iff.1 h
    refine .inr ⟨by simp, rfl, ⟨#[entry]⟩, ?_, rfl⟩
    rw [append, hempty]
    rfl
  · obtain ⟨closed, hclosed, hnext⟩ := closeEnds_concat init last entry
    rw [List.concat_eq_append] at h ⊢
    rw [hclosed] at h
    unfold accept
    rw [List.getLast?_concat]
    by_cases hlt : entry.timestampBegin < last.timestampBegin
    · exact .inl ⟨last, rfl, hlt, if_pos hlt, append_of_earlier h hlt⟩
    · obtain ⟨index', happend, hindex⟩ := append_of_last h (Nat.not_lt.1 hlt)
      refine .inr ⟨?_, if_neg hlt, index', happend, by rw [hnext, hindex]⟩
      rintro _ ⟨⟩
      exact Nat.not_lt.1 hlt

/-- A packet that is rejected changes nothing, and is rejected for its begin alone. -/
theorem appendInPlace_eq_error (h : index.entries.toList = closeEnds kept) :
    appendInPlace entry index = .error error index' ↔
      index' = index ∧ ∃ last, kept.getLast? = some last ∧
        entry.timestampBegin < last.timestampBegin ∧
        error = .packetOrder entry.offset entry.timestampBegin last.timestampBegin := by
  rw [appendInPlace_eq]
  rcases append_of_kept h entry with ⟨last, hlast, hlt, -, happend⟩ | ⟨hle, -, next, happend, -⟩
  · rw [happend]
    constructor
    · rintro ⟨⟩
      exact ⟨rfl, last, hlast, hlt, rfl⟩
    · rintro ⟨rfl, last', hlast', -, rfl⟩
      cases hlast.symm.trans hlast'
      rfl
  · rw [happend]
    constructor
    · intro hok
      cases hok
    · rintro ⟨-, last, hlast, hlt, -⟩
      exact absurd hlt (Nat.not_lt.2 (hle last hlast))

theorem offer_of_kept (h : index.entries.toList = closeEnds kept) (entry : PacketEntry) :
    (index.offer entry).entries.toList = closeEnds (accept kept entry) := by
  unfold offer
  rw [appendInPlace_eq]
  rcases append_of_kept h entry with
    ⟨last, -, -, haccept, happend⟩ | ⟨-, haccept, next, happend, hnext⟩
  · rw [happend, haccept]
    exact h
  · rw [happend, haccept]
    exact hnext

theorem accepted_concat (offered : List PacketEntry) (entry : PacketEntry) :
    accepted (offered ++ [entry]) = accept (accepted offered) entry := by
  rw [accepted, List.foldl_append, List.foldl_cons, List.foldl_nil, ← accepted]

/-- An index holds what was accepted, with the ends that are known by then. -/
theorem entries_offered (offered : List PacketEntry) :
    (offered.foldl offer {}).entries.toList = closeEnds (accepted offered) := by
  induction offered using List.reverseRecOn with
  | nil => rfl
  | append_singleton offered entry ih =>
    rw [List.foldl_append, List.foldl_cons, List.foldl_nil, accepted_concat]
    exact offer_of_kept ih entry

theorem accepted_sublist (offered : List PacketEntry) : (accepted offered).Sublist offered := by
  induction offered using List.reverseRecOn with
  | nil => exact .slnil
  | append_singleton offered entry ih =>
    rw [accepted_concat]
    unfold accept
    split
    next hnone => exact List.sublist_append_right _ _
    next last hlast =>
      split
      · exact ih.trans (List.sublist_append_left _ _)
      · exact ih.append (List.Sublist.refl _)

/-- Packets are accepted in the order of their begins. -/
theorem pairwise_accepted (offered : List PacketEntry) :
    (accepted offered).Pairwise fun e e' => e.timestampBegin ≤ e'.timestampBegin := by
  induction offered using List.reverseRecOn with
  | nil => exact .nil
  | append_singleton offered entry ih =>
    rw [accepted_concat]
    unfold accept
    split
    next hnone => exact List.pairwise_singleton _ _
    next last hlast =>
      split
      · exact ih
      next hle =>
        obtain ⟨init, hinit⟩ := List.getLast?_eq_some_iff.1 hlast
        rw [hinit] at ih ⊢
        have hbefore := (List.pairwise_append.1 ih).2.2
        refine List.pairwise_append.2 ⟨ih, List.pairwise_singleton _ _, fun e he e' he' => ?_⟩
        obtain rfl := List.mem_singleton.1 he'
        rcases List.mem_append.1 he with he | he
        · exact Nat.le_trans (hbefore e he last (by simp)) (Nat.not_lt.1 hle)
        · obtain rfl := List.mem_singleton.1 he
          exact Nat.not_lt.1 hle

/-- The index that packets lead to, none of which ends before it begins, is told by the packets that
were accepted. A further one is rejected if and only if it begins before the last of them, which
changes nothing. All that were accepted are in the index as they were offered, but for an end that
was not known and is the begin of the next one; the begins do not decrease, and no packet ends
before it begins. -/
theorem index_of_offered {offered : List PacketEntry}
    (h : ∀ e ∈ offered, e.timestampBegin ≤ e.timestampEnd) :
    let index := offered.foldl offer {}
    let kept := accepted offered
    (∀ entry error index', appendInPlace entry index = .error error index' ↔
      index' = index ∧ ∃ last, kept.getLast? = some last ∧
        entry.timestampBegin < last.timestampBegin ∧
        error = .packetOrder entry.offset entry.timestampBegin last.timestampBegin) ∧
    kept.Sublist offered ∧
    (∀ i, index.entries[i]? =
      kept[i]?.map fun (e : PacketEntry) =>
        { e with timestampEnd := e.endBefore kept[i + 1]? }) ∧
    (index.entries.toList.Pairwise fun e e' => e.timestampBegin ≤ e'.timestampBegin) ∧
    ∀ e ∈ index.entries, e.timestampBegin ≤ e.timestampEnd := by
  intro index kept
  have hentries : index.entries.toList = closeEnds kept := entries_offered offered
  have hget (i : Nat) : index.entries[i]? =
      kept[i]?.map fun (e : PacketEntry) =>
        { e with timestampEnd := e.endBefore kept[i + 1]? } := by
    rw [← Array.getElem?_toList, hentries, getElem?_closeEnds]
  have hpairwise := pairwise_accepted offered
  refine ⟨fun entry error index' => appendInPlace_eq_error hentries, accepted_sublist offered, hget,
    ?_, fun e he => ?_⟩
  · have hbegins : index.entries.toList.map PacketEntry.timestampBegin =
        kept.map PacketEntry.timestampBegin := by
      apply List.ext_getElem?
      intro i
      rw [List.getElem?_map, List.getElem?_map, Array.getElem?_toList, hget, Option.map_map]
      rfl
    rw [← List.pairwise_map (f := PacketEntry.timestampBegin), hbegins, List.pairwise_map]
    exact hpairwise
  · obtain ⟨i, hi, rfl⟩ := Array.mem_iff_getElem.1 he
    have hstored := hget i
    rw [Array.getElem?_eq_getElem hi, eq_comm, Option.map_eq_some_iff] at hstored
    obtain ⟨e, hkept, hstored⟩ := hstored
    rw [← hstored]
    obtain ⟨hlt, rfl⟩ := List.getElem?_eq_some_iff.1 hkept
    refine PacketEntry.le_endBefore
      (h _ ((accepted_sublist offered).subset (List.getElem_mem hlt))) fun next hnext => ?_
    -- the packet accepted next does not begin earlier
    obtain ⟨hlt', rfl⟩ := List.getElem?_eq_some_iff.1 hnext
    exact List.pairwise_iff_getElem.1 hpairwise i (i + 1) hlt hlt' (Nat.lt_succ_self i)

/-- A packet of no size during some time. -/
def during (timestampBegin timestampEnd : Nat) : PacketEntry :=
  ⟨0, 0, 0, 0, 0, timestampBegin, timestampEnd, 0, none, .ofAttributes {}, {}⟩

/-- The second and the last packet are rejected; the end of the fourth one is set, but stays
unknown. -/
theorem index_of_offered_open :
    let offered := [during 5 PacketEntry.openEnd, during 3 9, during 7 8,
      during 7 PacketEntry.openEnd, during PacketEntry.openEnd PacketEntry.openEnd, during 9 9]
    let index := offered.foldl offer {}
    (∀ e ∈ offered, e.timestampBegin ≤ e.timestampEnd) ∧
      index.entries.toList.map (fun e => (e.timestampBegin, e.timestampEnd)) =
        [(5, 7), (7, 8), (7, PacketEntry.openEnd), (PacketEntry.openEnd, PacketEntry.openEnd)] ∧
      appendInPlace (during 9 9) index =
        .error (.packetOrder 0 9 PacketEntry.openEnd) index ∧
      ∀ e ∈ index.entries, e.timestampBegin ≤ e.timestampEnd := by
  intro offered index
  have hoffered : ∀ e ∈ offered, e.timestampBegin ≤ e.timestampEnd := by decide +kernel
  obtain ⟨hrejected, -, -, -, hends⟩ := index_of_offered hoffered
  have hlast : ((accepted offered).getLast?.map PacketEntry.timestampBegin) =
      some PacketEntry.openEnd := by
    decide +kernel
  obtain ⟨last, hlast, hbegin⟩ := Option.map_eq_some_iff.1 hlast
  refine ⟨hoffered, by decide +kernel, (hrejected _ _ _).2 ⟨rfl, last, hlast, ?_, ?_⟩, hends⟩
  · rw [hbegin]
    decide
  · rw [hbegin]
    rfl

end PacketIndex

end CommonTrace
