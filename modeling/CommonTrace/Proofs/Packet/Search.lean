import CommonTrace.Proofs.Packet.Tiling

/-!
# Searching an index

The search halves a range of packets by when they end. Whatever the index, what it finds is a
packet that does not end before the time sought while the packet before it does. This is the
first packet that does not end before that time only where the packets end in the order of the
file. Adding a packet does not see to that: it compares where packets begin. A packet that lies
within the time of the one before it is accepted, and then the search passes over the latter.
-/
namespace CommonTrace.PacketIndex

variable {index index' : PacketIndex} {entry last next e : PacketEntry} {below : Nat → Bool}
  {timestamp base size stop place i j : Nat}

/-- The range always starts at a place that satisfies `below`, unless it starts at 0. It ends at
`stop` or next to a place that does not. -/
theorem bisect_spec (hsize : 0 < size) (hstop : base + size ≤ stop)
    (hbase : base = 0 ∨ below base = true)
    (hend : base + size = stop ∨ below (base + size) = false ∨
      below (base + size - 1) = false) :
    bisect below base size < stop ∧
      (bisect below base size = 0 ∨ below (bisect below base size) = true) ∧
      (bisect below base size + 1 = stop ∨ below (bisect below base size + 1) = false ∨
        below (bisect below base size) = false) := by
  fun_induction bisect below base size with
  | case1 base size hle =>
    obtain rfl : size = 1 := by omega
    rw [Nat.add_sub_cancel] at hend
    exact ⟨by omega, hbase, hend⟩
  | case2 base size hlt half ih =>
    have hhalf : half = size / 2 := rfl
    cases hprobe : below (base + half) with
    | true =>
      have hsame : base + half + (size - half) = base + size := by omega
      rw [dif_pos hprobe, hsame] at ih
      exact ih (by omega) hstop (.inr hprobe) hend
    | false =>
      rw [dif_neg (by simp [hprobe])] at ih
      refine ih (by omega) (by omega) hbase ?_
      -- the place that was tried is the first one left out, or the last one left
      rcases Nat.mod_two_eq_zero_or_one size with heven | hodd
      · have hout : base + (size - half) = base + half := by omega
        rw [hout]
        exact .inr (.inl hprobe)
      · have hlast : base + (size - half) - 1 = base + half := by omega
        rw [hlast]
        exact .inr (.inr hprobe)

theorem endsBefore_iff :
    index.endsBefore timestamp i = true ↔
      ∃ e, index.entries[i]? = some e ∧ e.timestampEnd < timestamp := by
  unfold endsBefore
  split
  next e he => simp [he]
  next he => simp [he]

/-- A place at which the search may end: the packet there, if there is one, does not end before
the time sought, and the packet before it does. -/
structure Boundary (index : PacketIndex) (timestamp place : Nat) : Prop where
  le_size : place ≤ index.entries.size
  here : ∀ e, index.entries[place]? = some e → timestamp ≤ e.timestampEnd
  before : ∀ e, 0 < place → index.entries[place - 1]? = some e → e.timestampEnd < timestamp

/-- What is found, or else the end of the index. -/
def found (index : PacketIndex) (timestamp : Nat) : Nat :=
  (index.search timestamp).getD index.entries.size

theorem not_endsBefore (h : index.endsBefore timestamp i = false)
    (he : index.entries[i]? = some e) : timestamp ≤ e.timestampEnd := by
  apply Nat.le_of_not_lt
  intro hlt
  rw [endsBefore_iff.2 ⟨e, he, hlt⟩] at h
  cases h

theorem endsBefore_entry (h : index.endsBefore timestamp i = true)
    (he : index.entries[i]? = some e) : e.timestampEnd < timestamp := by
  obtain ⟨e', he', hlt⟩ := endsBefore_iff.1 h
  cases he.symm.trans he'
  exact hlt

/-- What is found is the place at which the halving ends, or the one after it. -/
theorem found_eq (h : bisect (index.endsBefore timestamp) 0 index.entries.size = place)
    (hlt : place < index.entries.size) :
    index.found timestamp = if index.endsBefore timestamp place then place + 1 else place := by
  unfold found search
  dsimp only
  rw [h]
  split
  · split
    · rw [Option.getD_some]
    · rw [Option.getD_none]
      omega
  · rw [Option.getD_some]

theorem found_of_empty (h : index.entries.size = 0) : index.found timestamp = 0 := by
  unfold found search
  dsimp only
  rw [h, if_neg (Nat.not_lt_zero _), Option.getD_none]

/-- The search ends at a boundary, whatever the order in which packets end. -/
theorem boundary_found (index : PacketIndex) (timestamp : Nat) :
    index.Boundary timestamp (index.found timestamp) := by
  rcases Nat.eq_zero_or_pos index.entries.size with hempty | hpos
  · rw [found_of_empty hempty]
    refine ⟨Nat.zero_le _, fun e he => ?_, fun e h => absurd h (Nat.lt_irrefl 0)⟩
    obtain ⟨hlt, -⟩ := Array.getElem?_eq_some_iff.1 he
    omega
  · obtain ⟨hlt, hbase, hend⟩ := @bisect_spec (index.endsBefore timestamp) 0 index.entries.size
      index.entries.size hpos (by omega) (.inl rfl) (.inl (Nat.zero_add _))
    generalize hplace : bisect (index.endsBefore timestamp) 0 index.entries.size = place
      at hlt hbase hend
    rw [found_eq hplace hlt]
    split
    next hprobe =>
      refine ⟨hlt, fun e he => ?_, fun e _ => endsBefore_entry hprobe⟩
      rcases hend with hend | hend | hend
      · obtain ⟨hlt', -⟩ := Array.getElem?_eq_some_iff.1 he
        omega
      · exact not_endsBefore hend he
      · cases hprobe.symm.trans hend
    next hprobe =>
      obtain rfl : place = 0 := hbase.resolve_right hprobe
      rw [Bool.not_eq_true] at hprobe
      exact ⟨Nat.zero_le _, fun e => not_endsBefore hprobe, fun e h => absurd h (Nat.lt_irrefl 0)⟩

/-- Packets that end in the order of the file. -/
def EndsInOrder (index : PacketIndex) : Prop :=
  index.entries.toList.Pairwise fun last next => last.timestampEnd ≤ next.timestampEnd

instance (index : PacketIndex) : Decidable index.EndsInOrder :=
  inferInstanceAs (Decidable (List.Pairwise _ _))

theorem EndsInOrder.le (h : index.EndsInOrder) (hij : i ≤ j) (hi : index.entries[i]? = some last)
    (hj : index.entries[j]? = some next) : last.timestampEnd ≤ next.timestampEnd := by
  rw [← Array.getElem?_toList] at hi hj
  obtain ⟨hilt, rfl⟩ := List.getElem?_eq_some_iff.1 hi
  obtain ⟨hjlt, rfl⟩ := List.getElem?_eq_some_iff.1 hj
  rcases Nat.eq_or_lt_of_le hij with rfl | hlt
  · exact Nat.le_refl _
  · exact List.pairwise_iff_getElem.1 h i j hilt hjlt hlt

/-- All packets before the one that is found end before the time sought. -/
theorem EndsInOrder.before_found (h : index.EndsInOrder) (hi : i < index.found timestamp)
    (he : index.entries[i]? = some e) : e.timestampEnd < timestamp := by
  obtain ⟨hle, -, hbefore⟩ := index.boundary_found timestamp
  have hlast : index.found timestamp - 1 < index.entries.size := by omega
  have hget := Array.getElem?_eq_getElem hlast
  exact Nat.lt_of_le_of_lt (h.le (by omega) he hget) (hbefore _ (by omega) hget)

theorem search_of_found (h : index.found timestamp < index.entries.size) :
    index.search timestamp = some (index.found timestamp) := by
  unfold found at h ⊢
  cases hsearch : index.search timestamp with
  | none =>
    rw [hsearch] at h
    exact absurd h (Nat.lt_irrefl _)
  | some place => rfl

theorem found_lt_of_search (h : index.search timestamp = some place) :
    place < index.entries.size := by
  unfold search at h
  obtain ⟨hlt, heq⟩ := Option.ite_none_right_eq_some.1 h
  rwa [Option.some.inj heq] at hlt

/-- Where packets end in the order of the file, the search finds the first one that does not end
before the time sought, if there is one. -/
theorem EndsInOrder.search_eq (h : index.EndsInOrder) (timestamp : Nat) :
    index.search timestamp = index.entries.findIdx? fun e => timestamp ≤ e.timestampEnd := by
  have hbefore {i : Nat} (hi : i < index.found timestamp) (hsize : i < index.entries.size) :
      index.entries[i].timestampEnd < timestamp :=
    h.before_found hi (Array.getElem?_eq_getElem hsize)
  obtain ⟨hle, hhere, -⟩ := index.boundary_found timestamp
  rcases Nat.eq_or_lt_of_le hle with hend | hlt
  · have hsearch : index.search timestamp = none := by
      cases hsearch : index.search timestamp with
      | none => rfl
      | some place =>
        have hlt := found_lt_of_search hsearch
        rw [found, hsearch, Option.getD_some] at hend
        omega
    rw [hsearch, eq_comm, Array.findIdx?_eq_none_iff]
    intro e he
    obtain ⟨i, hi, rfl⟩ := Array.mem_iff_getElem.1 he
    exact decide_eq_false (Nat.not_le.2 (hbefore (hend ▸ hi) hi))
  · rw [search_of_found hlt, eq_comm, Array.findIdx?_eq_some_iff_getElem]
    refine ⟨hlt, decide_eq_true (hhere _ (Array.getElem?_eq_getElem hlt)), fun i hi => ?_⟩
    rw [decide_eq_true_eq, Nat.not_le]
    exact hbefore hi (Nat.lt_trans hi hlt)

/-- The indexes that are reached by adding packets, none of which ends before it begins. -/
inductive Appended : PacketIndex → Prop
  | empty : Appended {}
  | append {index index' : PacketIndex} {entry : PacketEntry} (h : Appended index)
      (hends : entry.timestampBegin ≤ entry.timestampEnd)
      (happend : index.append entry = .ok index') : Appended index'

/-- Packets none of which begins before the one before it ends. -/
def Disjoint (index : PacketIndex) : Prop :=
  index.entries.toList.IsChain fun last next => last.timestampEnd ≤ next.timestampBegin

instance (index : PacketIndex) : Decidable index.Disjoint :=
  inferInstanceAs (Decidable (List.IsChain _ _))

theorem Appended.begin_le_end (h : Appended index) :
    ∀ e ∈ index.entries.toList, e.timestampBegin ≤ e.timestampEnd := by
  induction h with
  | empty => exact fun e he => absurd he List.not_mem_nil
  | append _ hends happend ih =>
    refine forall_append happend ih hends fun e he hle => ?_
    unfold PacketEntry.closedBy
    split
    · exact hle
    · exact he

/-- Packets that do not overlap end in the order of the file. -/
theorem Appended.endsInOrder (h : Appended index) (hdisjoint : index.Disjoint) :
    index.EndsInOrder := by
  have hchain : (index.entries.toList.map PacketEntry.timestampEnd).IsChain (· ≤ ·) := by
    rw [List.isChain_map]
    refine hdisjoint.imp_of_mem_imp fun last next _ hnext hle => ?_
    exact Nat.le_trans hle (h.begin_le_end next hnext)
  exact List.pairwise_map.1 hchain.pairwise

/-- What a search in an index tells: always a boundary; the first packet that does not end before
the time sought, where the packets end in the order of the file; and they do so unless some of
them overlap. -/
theorem search_of_appended (h : Appended index) (timestamp : Nat) :
    index.Boundary timestamp (index.found timestamp) ∧
      (index.EndsInOrder →
        index.search timestamp = index.entries.findIdx? fun e => timestamp ≤ e.timestampEnd) ∧
      (index.Disjoint → index.EndsInOrder) :=
  ⟨index.boundary_found timestamp, fun hends => hends.search_eq timestamp, h.endsInOrder⟩

/-- The fields of a context of 192 bits, which are the times and the size of a packet that has no
events. -/
def spanFields (span : Int × Int) : List (String × Value) :=
  let word : IntegerType := .word false .little
  [("timestamp_begin", .integer word 0 span.1), ("timestamp_end", .integer word 64 span.2),
    ("packet_size", .integer word 128 192)]

/-- The index of two such packets. -/
def ofSpans (first second : Int × Int) : Except Error PacketIndex := do
  let entry ← PacketEntry.ofContext 0 0 192 (spanFields first) 48 0 .clamp
  let index ← ({} : PacketIndex).append entry
  let entry ← PacketEntry.ofContext 24 0 192 (spanFields second) 48 0 .clamp
  index.append entry

theorem exists_of_bind_eq_ok {α β : Type} {m : Except Error α} {k : α → Except Error β} {b : β}
    (h : m >>= k = .ok b) : ∃ a, m = .ok a ∧ k a = .ok b := by
  cases m with
  | error e => cases h
  | ok a => exact ⟨a, rfl, h⟩

theorem appended_ofSpans {first second : Int × Int} (h : ofSpans first second = .ok index) :
    Appended index := by
  obtain ⟨entry, hentry, h⟩ := exists_of_bind_eq_ok h
  obtain ⟨index', hindex', h⟩ := exists_of_bind_eq_ok h
  obtain ⟨entry', hentry', h⟩ := exists_of_bind_eq_ok h
  have hends := (PacketEntry.ofContext_eq_ok (by omega) hentry).1.ends
  have hends' := (PacketEntry.ofContext_eq_ok (by omega) hentry').1.ends
  exact (Appended.empty.append hends hindex').append hends' h

/-- The second packet begins after the first one has ended. -/
theorem search_of_appended_disjoint :
    ∃ index, ofSpans (0, 20) (30, 40) = .ok index ∧ Appended index ∧ index.Disjoint ∧
      index.search 25 = some 1 ∧
      index.search 25 = index.entries.findIdx? fun e => 25 ≤ e.timestampEnd := by
  have hrun : (ofSpans (0, 20) (30, 40)).toOption.map (fun index =>
      (decide index.Disjoint, index.search 25)) = some (true, some 1) := by
    decide +kernel
  cases h : ofSpans (0, 20) (30, 40) with
  | error e =>
    rw [h] at hrun
    cases hrun
  | ok index =>
    rw [h] at hrun
    obtain ⟨hdisjoint, hsearch⟩ := Prod.mk.inj (Option.some.inj hrun)
    have hdisjoint := of_decide_eq_true hdisjoint
    obtain ⟨-, hfirst, hordered⟩ := search_of_appended (appended_ofSpans h) 25
    exact ⟨index, rfl, appended_ofSpans h, hdisjoint, hsearch, hfirst (hordered hdisjoint)⟩

/-- The second packet lies within the time of the first one, which the search passes over. -/
theorem search_of_nested :
    ∃ index, ofSpans (0, 100) (10, 20) = .ok index ∧ Appended index ∧ index.search 50 = none ∧
      (index.entries.findIdx? fun e => 50 ≤ e.timestampEnd) = some 0 := by
  have hrun : (ofSpans (0, 100) (10, 20)).toOption.map (fun index =>
      (index.search 50, index.entries.findIdx? fun e => 50 ≤ e.timestampEnd)) =
        some (none, some 0) := by
    decide +kernel
  cases h : ofSpans (0, 100) (10, 20) with
  | error e =>
    rw [h] at hrun
    cases hrun
  | ok index =>
    rw [h] at hrun
    obtain ⟨hsearch, hfirst⟩ := Prod.mk.inj (Option.some.inj hrun)
    exact ⟨index, rfl, appended_ofSpans h, hsearch, hfirst⟩

end CommonTrace.PacketIndex
