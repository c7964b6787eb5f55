import CommonTrace.Proofs.Stream.Repositioning
import CommonTrace.Proofs.Trace.Merge
import CommonTrace.Trace.Summary

/-!
# Counting events by file

A summary counts the events that were read by the paths of their files and shows for each stream
what was counted under the path of its file, as far as 64 bits hold it. So an event is counted once
for every stream with the path of its file: once in all if no two files have the same path, and then
for the stream that it comes from.
-/
namespace CommonTrace

section Total

variable {α : Type}

theorem total_map_add (items : List α) (f g : α → Nat) :
    total (items.map fun a => f a + g a) = total (items.map f) + total (items.map g) := by
  induction items with
  | nil => rfl
  | cons a rest ih =>
    simp only [List.map_cons, total_cons, ih]
    omega

theorem total_filter (items : List α) (p : α → Bool) (f : α → Nat) :
    total ((items.filter p).map f) = total (items.map fun a => if p a then f a else 0) := by
  induction items with
  | nil => rfl
  | cons a rest ih =>
    rw [List.filter_cons, List.map_cons, total_cons, ← ih]
    split
    · rw [List.map_cons, total_cons]
    · rw [Nat.zero_add]

end Total

namespace StreamReader

theorem file_advance (r : StreamReader) : r.advance.2.file = r.file := by
  unfold advance
  split
  next step hstep =>
    obtain ⟨p, -, hread⟩ := Option.bind_eq_some_iff.1 hstep
    exact (bitsLeft_readEvent hread).1
  · exact (workLeft_readPackets r).1

theorem file_seek (r : StreamReader) (timestamp : Nat) : (r.seek timestamp).2.file = r.file := by
  obtain ⟨r', hfile, heq⟩ : ∃ r' : StreamReader, r'.file = r.file ∧
      r.seek timestamp = r'.advance :=
    exists_advance_of_skipBefore (P := fun r' => r'.file = r.file)
      (fun r' h => r'.file_advance.trans h) rfl
  rw [heq, file_advance, hfile]

end StreamReader

namespace TraceReader

variable {t : TraceReader} {streams : List StreamReader} {records : List PendingEvent}
  {limit : Option Nat}

/-- The files that a reader merges, in order. -/
def files (t : TraceReader) : List StreamFile := t.streams.map (·.file)

theorem forall₂_file_iff {items : List StreamFile} :
    List.Forall₂ (fun f (r : StreamReader) => f = r.file) items streams ↔
      items = streams.map (·.file) := by
  rw [← List.forall₂_map_right_iff (R := Eq), List.forall₂_eq_eq_eq]

theorem files_advance (t : TraceReader) : t.advance.2.files = t.files :=
  (forall₂_file_iff.1 (forall₂_advance (fun _ r h => h.trans r.file_advance.symm)
    (forall₂_file_iff.2 rfl))).symm

theorem files_seek (t : TraceReader) (timestamp : Nat) : (t.seek timestamp).files = t.files :=
  (forall₂_file_iff.1 (forall₂_restart (fun _ r h => h.trans (r.file_seek timestamp).symm)
    (forall₂_file_iff.2 rfl))).symm

theorem failed_advance (t : TraceReader) : t.advance.2.failed = t.failed := by
  unfold TraceReader.advance
  split
  · rfl
  · split
    · rfl
    · split <;> rfl

theorem files_restart (t : TraceReader) : (t.restart StreamReader.advance).files = t.files :=
  (forall₂_file_iff.1 (forall₂_restart (fun _ r h => h.trans r.file_advance.symm)
    (forall₂_file_iff.2 rfl))).symm

/-- A reader of some files merges them in order. -/
theorem ofFiles_eq_ok {files : List StreamFile} (h : ofFiles files = .ok t) :
    t.Consistent ∧ t.files = files := by
  unfold ofFiles at h
  split at h
  · cases h
  cases h
  refine ⟨consistent_restart _, (files_restart _).trans ?_⟩
  rw [TraceReader.files, List.map_map]
  exact List.map_id _

/-- A reader of some inputs merges those that can be opened, in order. -/
theorem ofInputs_eq_ok {metadata : Metadata} {policy : LostEventsPolicy} {inputs : List Input}
    (h : ofInputs metadata policy inputs = .ok t) :
    t.Consistent ∧ (t.files.map (·.path)).Sublist (inputs.map (·.path)) := by
  unfold ofInputs at h
  dsimp only at h
  cases hmerged : ofFiles _ with
  | error e =>
    rw [hmerged] at h
    cases h
  | ok merged =>
    rw [hmerged] at h
    cases h
    obtain ⟨hconsistent, hfiles⟩ := ofFiles_eq_ok hmerged
    refine ⟨⟨hconsistent.mem_iff, hconsistent.nodup⟩, ?_⟩
    show (merged.files.map (·.path)).Sublist (inputs.map (·.path))
    rw [hfiles]
    clear hmerged hconsistent hfiles
    induction inputs with
    | nil => exact .slnil
    | cons input rest ih =>
      cases hinput : StreamFile.ofInput metadata policy input with
      | error e =>
        simp only [List.map_cons, hinput]
        exact ih.cons input.path
      | ok f =>
        simp only [List.map_cons, hinput]
        rw [← (StreamFile.made_of_ofInput hinput).1]
        exact ih.cons_cons f.path

theorem hasMore_of_current? {p : PendingEvent} (h : t.current? = some p) : t.hasMore := by
  obtain ⟨turn, hturn, -⟩ := peek?_of_current? h
  obtain ⟨rest, hpop⟩ := MergeQueue.peek?_eq_some.1 hturn
  exact hasMore_iff.2 ⟨_, hpop⟩

/-- The first ones of some records, as many as there may be. -/
def upTo (limit : Option Nat) (records : List PendingEvent) : List PendingEvent :=
  match limit with
  | none => records
  | some n => records.take n

theorem upTo_cons (hlimit : limit ≠ some 0) (p : PendingEvent) :
    upTo limit (p :: records) = p :: upTo (limit.map (· - 1)) records := by
  cases limit with
  | none => rfl
  | some n =>
    cases n with
    | zero => exact absurd rfl hlimit
    | succ n => rfl

theorem mem_of_mem_upTo {p : PendingEvent} (h : p ∈ upTo limit records) : p ∈ records := by
  cases limit with
  | none => exact h
  | some n => exact List.mem_of_mem_take h

/-- Reading yields the merged events up to the limit, and changes neither the files nor the inputs
that have failed. -/
theorem read_spec (h : t.Consistent) (limit : Option Nat) :
    (t.read limit).1.map (·.1) = upTo limit t.merged ∧
      (t.read limit).2.files = t.files ∧ (t.read limit).2.failed = t.failed := by
  fun_induction read t limit with
  | case1 t limit hnone =>
    have hend : ¬t.hasMore := by
      intro hmore
      obtain ⟨head, rest, hhead, -⟩ := h.exists_inTurn hmore
      cases hnone.symm.trans hhead.current
    rw [merged_of_end hend]
    refine ⟨?_, rfl, rfl⟩
    cases limit with
    | none => rfl
    | some n => exact List.take_nil.symm
  | case2 t head hhead => exact ⟨rfl, rfl, rfl⟩
  | case3 t limit head hcurrent hlimit hlt step failure rest last hread ih =>
    obtain ⟨head', rest', hhead, hpop⟩ := h.exists_inTurn (hasMore_of_current? hcurrent)
    cases hcurrent.symm.trans hhead.current
    obtain ⟨hrecords, hfiles, hfailed⟩ := ih h.advance
    rw [hread] at hrecords hfiles hfailed
    refine ⟨?_, hfiles.trans t.files_advance, hfailed.trans t.failed_advance⟩
    rw [List.map_cons, hrecords, merged_of_inTurn (hasMore_of_current? hcurrent) hhead,
      upTo_cons hlimit]

/-- Every merged event is of the file at its place. -/
theorem placed_of_mem_merged (h : t.Consistent) {p : PendingEvent} (hp : p ∈ t.merged) :
    t.files[p.place]? = some p.stream.file := by
  fun_induction run t with
  | case1 t hmore hlt ih =>
    obtain ⟨head, rest, hhead, hpop⟩ := h.exists_inTurn hmore
    rw [merged_of_inTurn hmore hhead] at hp
    rcases List.mem_cons.1 hp with rfl | hp
    · rw [files, List.getElem?_map, hhead.stream, Option.map_some]
    · rw [← ih h.advance hp, files_advance]
  | case2 t hend =>
    rw [merged_of_end hend] at hp
    cases hp

/-- How many of the files that a reader merges have a path. -/
def copies (t : TraceReader) (path : String) : Nat := t.files.countP fun f => Path.same path f.path

/-- What the records of files with a path stand for. -/
def tally (path : String) (records : List PendingEvent) : Nat :=
  total ((records.filter fun p => Path.same p.stream.file.path path).map (·.event.count))

/-- What the records stand for that have the path of a file, for each of the files. -/
def tallies (t : TraceReader) (records : List PendingEvent) : List Nat :=
  t.files.map fun f => tally f.path records

theorem counts_eq (t : TraceReader) (records : List PendingEvent) :
    t.counts records = (t.tallies records).map wrap := by
  rw [counts, tallies, files, List.map_map, List.map_map]
  rfl

/-- Every record stands in the tally of each file with the path of its own. -/
theorem total_tallies (t : TraceReader) (records : List PendingEvent) :
    total (t.tallies records) =
      total (records.map fun p => p.event.count * t.copies p.stream.file.path) := by
  unfold tallies copies
  generalize t.files = files
  induction files with
  | nil =>
    induction records with
    | nil => rfl
    | cons p rest ih => simpa using ih
  | cons f files ih =>
    rw [List.map_cons, total_cons, ih, tally, total_filter, ← total_map_add]
    refine congrArg total (List.map_congr_left fun p _ => ?_)
    rw [List.countP_cons, Nat.mul_add, Nat.add_comm]
    split
    · rw [Nat.mul_one]
    · rfl

/-- No two of some files have the same path. -/
def DistinctPaths (files : List StreamFile) : Prop :=
  files.Pairwise fun f g => Path.same f.path g.path = false

theorem same_self (path : String) : Path.same path path = true := by simp [Path.same]

theorem same_comm (path other : String) : Path.same path other = Path.same other path := by
  simp [Path.same, eq_comm]

theorem DistinctPaths.same_eq {files : List StreamFile} (h : DistinctPaths files) {i j : Nat}
    {f g : StreamFile} (hf : files[i]? = some f) (hg : files[j]? = some g) :
    Path.same f.path g.path = (i == j) := by
  obtain ⟨hi, rfl⟩ := List.getElem?_eq_some_iff.1 hf
  obtain ⟨hj, rfl⟩ := List.getElem?_eq_some_iff.1 hg
  have hpairs := List.pairwise_iff_getElem.1 h
  rcases Nat.lt_trichotomy i j with hlt | rfl | hlt
  · rw [hpairs i j hi hj hlt, beq_false_of_ne (Nat.ne_of_lt hlt)]
  · rw [same_self, beq_self_eq_true]
  · rw [same_comm, hpairs j i hj hi hlt, beq_false_of_ne (Nat.ne_of_gt hlt)]

/-- The tally of a file with a path of its own is that of its own records. -/
theorem tallies_of_distinct (h : DistinctPaths t.files)
    (hplaced : ∀ p ∈ records, t.files[p.place]? = some p.stream.file) :
    t.tallies records =
      (List.range t.files.length).map fun place =>
        total ((taken place records).map Event.count) := by
  unfold tallies
  refine List.ext_getElem (by simp) fun place hplace _ => ?_
  have hlt : place < t.files.length := by simpa using hplace
  have hkept : records.filter (fun p => Path.same p.stream.file.path t.files[place].path) =
      records.filter (·.place == place) :=
    List.filter_congr fun p hp => h.same_eq (hplaced p hp) (List.getElem?_eq_getElem hlt)
  rw [List.getElem_map, List.getElem_map, List.getElem_range, tally, hkept, taken, List.map_map]
  rfl

/-- A file with a path of its own is the only one with that path. -/
theorem copies_of_distinct (h : DistinctPaths t.files) {place : Nat} {f : StreamFile}
    (hf : t.files[place]? = some f) : t.copies f.path = 1 := by
  unfold copies
  generalize t.files = files at h hf
  induction files generalizing place with
  | nil => cases hf
  | cons g rest ih =>
    obtain ⟨hhead, hrest⟩ := List.pairwise_cons.1 h
    rw [List.countP_cons]
    cases place with
    | zero =>
      cases hf
      have hnone : rest.countP (fun g => Path.same f.path g.path) = 0 :=
        List.countP_eq_zero.2 fun g hg => by simp [hhead g hg]
      rw [hnone, if_pos (same_self _)]
    | succ place =>
      have hother : Path.same f.path g.path = false := by
        rw [same_comm]
        exact hhead f (List.mem_of_getElem? hf)
      rw [ih hrest hf, if_neg (by simp [hother])]

/-- If no two files have the same path, the tallies add up to what the records stand for. -/
theorem total_tallies_of_distinct (h : DistinctPaths t.files)
    (hplaced : ∀ p ∈ records, t.files[p.place]? = some p.stream.file) :
    total (t.tallies records) = total (records.map fun p => p.event.count) := by
  rw [total_tallies]
  refine congrArg total (List.map_congr_left fun p hp => ?_)
  rw [copies_of_distinct h (hplaced p hp), Nat.mul_one]

end TraceReader

end CommonTrace
