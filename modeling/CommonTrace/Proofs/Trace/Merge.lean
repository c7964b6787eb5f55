import CommonTrace.Proofs.Stream.Independence
import CommonTrace.Proofs.Trace.Moving

/-!
# Merging loses nothing

The queue of a trace reader holds a turn for every stream that has an event, with the time
of that event, and no other. Moving past an event keeps it so, whether the stream whose turn
it is has another event, ends or fails. Hence the current event is always the earliest
one, each stream is merged in its own order up to the point where it leaves the merge, and
streams that are in order by themselves are merged in order.
-/
namespace CommonTrace

open StreamReader

/-- The turn of an event to be merged. -/
def PendingEvent.turn (p : PendingEvent) : Turn := ⟨p.event.timestamp, p.place⟩

namespace MergeQueue

variable {q : MergeQueue} {turn : Turn} {place : Nat} {out : StreamReader.Outcome}

theorem mem_requeue :
    turn ∈ (q.requeue place out).turns ↔
      turn ∈ q.turns ∨ ∃ event, out.event? = some event ∧ turn = ⟨event.timestamp, place⟩ := by
  unfold requeue
  split
  next event =>
    rw [(q.perm_push _).mem_iff, List.mem_cons]
    simp [Outcome.event?, or_comm]
  next => simp [Outcome.event?]
  next => simp [Outcome.event?]

theorem mem_requeueAll {outs : List StreamReader.Outcome} :
    turn ∈ (q.requeueAll place outs).turns ↔
      turn ∈ q.turns ∨ ∃ i out event, outs[i]? = some out ∧ out.event? = some event ∧
        turn = ⟨event.timestamp, place + i⟩ := by
  induction outs generalizing q place with
  | nil => simp [requeueAll]
  | cons out rest ih =>
    rw [requeueAll, ih, mem_requeue, or_assoc]
    refine or_congr_right ⟨?_, ?_⟩
    · rintro (⟨event, hevent, rfl⟩ | ⟨i, out', event, hout, hevent, rfl⟩)
      · exact ⟨0, out, event, rfl, hevent, rfl⟩
      · exact ⟨i + 1, out', event, hout, hevent, by rw [Nat.add_right_comm, Nat.add_assoc]⟩
    · rintro ⟨i, out', event, hout, hevent, rfl⟩
      cases i with
      | zero =>
        cases hout
        exact .inl ⟨event, hevent, rfl⟩
      | succ i =>
        exact .inr ⟨i, out', event, hout, hevent, by rw [Nat.add_right_comm, Nat.add_assoc]⟩

/-- A stream is let wait once. -/
theorem nodup_requeue (h : (q.turns.map Turn.place).Nodup)
    (hplace : place ∉ q.turns.map Turn.place) :
    ((q.requeue place out).turns.map Turn.place).Nodup := by
  unfold requeue
  split
  next event =>
    rw [((q.perm_push _).map Turn.place).nodup_iff, List.map_cons, List.nodup_cons]
    exact ⟨hplace, h⟩
  next => exact h
  next => exact h

theorem nodup_requeueAll {outs : List StreamReader.Outcome} (h : (q.turns.map Turn.place).Nodup)
    (hplace : ∀ turn ∈ q.turns, turn.place < place) :
    ((q.requeueAll place outs).turns.map Turn.place).Nodup := by
  induction outs generalizing q place with
  | nil => exact h
  | cons out rest ih =>
    refine ih (nodup_requeue h fun hmem => ?_) fun turn hturn => ?_
    · obtain ⟨turn, hturn, heq⟩ := List.mem_map.1 hmem
      exact absurd heq (Nat.ne_of_lt (hplace turn hturn))
    · rcases mem_requeue.1 hturn with hturn | ⟨event, -, rfl⟩
      · exact Nat.lt_succ_of_lt (hplace turn hturn)
      · exact Nat.lt_succ_self place

end MergeQueue

namespace TraceReader

variable {t : TraceReader} {turn : Turn} {rest : MergeQueue} {stream : StreamReader} {place : Nat}

/-- Whether a stream has an event with the time and at the place of a turn. -/
def Waits (t : TraceReader) (turn : Turn) : Prop :=
  ∃ stream event, t.streams[turn.place]? = some stream ∧ stream.current = some event ∧
    event.timestamp = turn.time

/-- The queue holds the turns of the streams that have an event, each of them once. -/
structure Consistent (t : TraceReader) : Prop where
  mem_iff : ∀ turn, turn ∈ t.queue.turns ↔ t.Waits turn
  nodup : (t.queue.turns.map Turn.place).Nodup

/-- Streams that are queued anew wait with the events that they have been moved to. -/
theorem consistent_restart_of (t : TraceReader)
    {move : StreamReader → StreamReader.Outcome × StreamReader}
    (hmove : ∀ r, (move r).2.current = (move r).1.event?) : (t.restart move).Consistent where
  mem_iff turn := by
    unfold restart Waits
    dsimp only
    rw [MergeQueue.mem_requeueAll]
    constructor
    · rintro (hturn | ⟨i, out, event, hout, hevent, rfl⟩)
      · cases hturn
      · simp only [List.map_map, List.getElem?_map, Option.map_eq_some_iff] at hout
        obtain ⟨stream, hstream, rfl⟩ := hout
        refine ⟨(move stream).2, event, ?_, ?_, rfl⟩
        · simp [hstream]
        · rw [hmove]
          exact hevent
    · rintro ⟨moved, event, hmoved, hcurrent, htime⟩
      simp only [List.map_map, List.getElem?_map, Option.map_eq_some_iff] at hmoved
      obtain ⟨stream, hstream, rfl⟩ := hmoved
      refine .inr ⟨turn.place, (move stream).1, event, by simp [hstream], ?_, ?_⟩
      · rw [← hmove]
        exact hcurrent
      · rw [htime, Nat.zero_add]
  nodup := MergeQueue.nodup_requeueAll .nil nofun

/-- The streams of a reader that is started are queued with their first events. -/
theorem consistent_restart (t : TraceReader) : (t.restart StreamReader.advance).Consistent :=
  t.consistent_restart_of StreamReader.current_advance

namespace Consistent

/-- The first turn is that of a stream with an event. -/
theorem exists_stream (h : t.Consistent) (hpop : t.queue.pop? = some (turn, rest)) :
    ∃ stream event, t.streams[turn.place]? = some stream ∧ stream.current = some event ∧
      event.timestamp = turn.time := by
  apply (h.mem_iff turn).1
  rw [MergeQueue.pop?_eq_some.1 hpop]
  exact List.mem_cons_self

/-- Moving the stream whose turn it is keeps the queue right. -/
theorem withStream (h : t.Consistent) (hpop : t.queue.pop? = some (turn, rest))
    (hstream : t.streams[turn.place]? = some stream) {stream' : StreamReader}
    {out : StreamReader.Outcome} (hcurrent : stream'.current = out.event?) :
    (t.withStream turn.place stream' (rest.requeue turn.place out)).Consistent := by
  have hturns := MergeQueue.pop?_eq_some.1 hpop
  have hnodup := h.nodup
  rw [hturns, List.map_cons, List.nodup_cons] at hnodup
  have hlt := (List.getElem?_eq_some_iff.1 hstream).1
  refine ⟨fun other => ?_, MergeQueue.nodup_requeue hnodup.2 hnodup.1⟩
  show other ∈ (rest.requeue turn.place out).turns ↔ _
  rw [MergeQueue.mem_requeue]
  unfold Waits TraceReader.withStream
  dsimp only
  by_cases hplace : other.place = turn.place
  · -- none of the other turns is at this place
    rw [hplace, List.getElem?_set_self hlt]
    constructor
    · rintro (hother | ⟨event, hevent, rfl⟩)
      · exact absurd (List.mem_map.2 ⟨other, hother, hplace⟩) hnodup.1
      · exact ⟨stream', event, rfl, hcurrent.trans hevent, rfl⟩
    · rintro ⟨moved, event, hmoved, hevent, htime⟩
      cases hmoved
      refine .inr ⟨event, hcurrent.symm.trans hevent, ?_⟩
      rw [htime, ← hplace]
  · rw [List.getElem?_set_ne (Ne.symm hplace)]
    have hne : other ≠ turn := by
      rintro rfl
      exact hplace rfl
    have hmem := h.mem_iff other
    rw [hturns, List.mem_cons, or_iff_right hne] at hmem
    rw [hmem]
    refine or_iff_left ?_
    rintro ⟨event, -, rfl⟩
    exact hplace rfl

theorem advance (h : t.Consistent) : t.advance.2.Consistent := by
  cases hpop : t.queue.pop? with
  | none =>
    rw [advance_of_empty hpop]
    exact h
  | some popped =>
    obtain ⟨turn, rest⟩ := popped
    obtain ⟨stream, event, hstream, -⟩ := h.exists_stream hpop
    rw [advance_of_pop hpop hstream]
    exact h.withStream hpop hstream stream.current_pass

end Consistent

theorem hasMore_iff : t.hasMore ↔ ∃ popped, t.queue.pop? = some popped := by
  cases hpop : t.queue.pop? with
  | none => simp [hasMore, MergeQueue.isEmpty, MergeQueue.pop?_eq_none.1 hpop]
  | some popped => simp [hasMore, MergeQueue.isEmpty, MergeQueue.pop?_eq_some.1 hpop]

/-- The event whose turn it is, which is the earliest of those that wait, and among those of
one time the one of the stream that comes first. -/
structure InTurn (t : TraceReader) (head : PendingEvent) : Prop where
  current : t.current? = some head
  stream : t.streams[head.place]? = some head.stream
  event : head.stream.current = some head.event
  least : ∀ turn, t.Waits turn → head.turn ≤ turn

theorem Consistent.exists_inTurn (h : t.Consistent) (hmore : t.hasMore) :
    ∃ head rest, t.InTurn head ∧ t.queue.pop? = some (head.turn, rest) := by
  obtain ⟨⟨turn, rest⟩, hpop⟩ := hasMore_iff.1 hmore
  obtain ⟨stream, event, hstream, hcurrent, htime⟩ := h.exists_stream hpop
  have hturns := MergeQueue.pop?_eq_some.1 hpop
  have hhead : (⟨turn.place, stream, event⟩ : PendingEvent).turn = turn := by
    rw [PendingEvent.turn, htime]
  refine ⟨⟨turn.place, stream, event⟩, rest, ⟨?_, hstream, hcurrent, fun other hother => ?_⟩,
    hhead ▸ hpop⟩
  · unfold current?
    rw [MergeQueue.peek?_eq_some.2 ⟨rest, hpop⟩]
    simp [hstream, hcurrent]
  · rw [hhead]
    have hsorted := t.queue.sorted
    rw [hturns, List.pairwise_cons] at hsorted
    have hmem := (h.mem_iff other).2 hother
    rw [hturns, List.mem_cons] at hmem
    rcases hmem with rfl | hmem
    · exact Turn.le_iff.2 (.inr ⟨rfl, Nat.le_refl _⟩)
    · exact hsorted.1 other hmem

/-- The states in which there is a current event, from a reader on until there is none, past
all failures. -/
def run (t : TraceReader) : List TraceReader :=
  if h : t.hasMore then
    have : t.advance.2.stepsLeft < t.stepsLeft := by
      obtain ⟨⟨turn, rest⟩, hpop⟩ := hasMore_iff.1 h
      exact stepsLeft_advance (MergeQueue.peek?_eq_some.2 ⟨rest, hpop⟩)
    t :: run t.advance.2
  else []
termination_by t.stepsLeft

/-- The current events of a run, in order. -/
def merged (t : TraceReader) : List PendingEvent := t.run.filterMap current?

/-- The events that a merge has taken from the stream at a place. -/
def taken (place : Nat) (merged : List PendingEvent) : List Event :=
  (merged.filter (·.place == place)).map (·.event)

/-- What the stream at a place is ahead of. -/
def ahead (t : TraceReader) (place : Nat) : List Event :=
  (t.streams[place]?.map StreamReader.ahead).getD []

theorem merged_of_end (h : ¬t.hasMore) : t.merged = [] := by
  rw [merged, run, dif_neg h]
  rfl

theorem merged_of_inTurn {head : PendingEvent} (h : t.hasMore) (hhead : t.InTurn head) :
    t.merged = head :: t.advance.2.merged := by
  rw [merged, run, dif_pos h]
  exact List.filterMap_cons_some hhead.current

variable {head : PendingEvent}

theorem ahead_of_stream (hstream : t.streams[place]? = some stream) :
    t.ahead place = stream.ahead := by
  rw [ahead, hstream, Option.map_some, Option.getD_some]

theorem ahead_of_inTurn (hhead : t.InTurn head) :
    t.ahead head.place = head.event :: events head.stream.drain.1 := by
  rw [ahead_of_stream hhead.stream, ahead_of_some hhead.event]

/-- Moving past an event moves its stream, twice if it fails. -/
theorem stream_advance (hhead : t.InTurn head) (hpop : t.queue.pop? = some (head.turn, rest)) :
    t.advance.2.streams[head.place]? = some head.stream.pass.2 := by
  have hlt := (List.getElem?_eq_some_iff.1 hhead.stream).1
  rw [advance_of_pop hpop hhead.stream]
  exact List.getElem?_set_self hlt

/-- Moving past an event moves no other stream. -/
theorem stream_advance_of_ne (hhead : t.InTurn head)
    (hpop : t.queue.pop? = some (head.turn, rest)) (hplace : place ≠ head.place) :
    t.advance.2.streams[place]? = t.streams[place]? := by
  rw [advance_of_pop hpop hhead.stream]
  exact List.getElem?_set_ne (Ne.symm hplace)

theorem ahead_advance_of_ne (hhead : t.InTurn head)
    (hpop : t.queue.pop? = some (head.turn, rest)) (hplace : place ≠ head.place) :
    t.advance.2.ahead place = t.ahead place := by
  rw [ahead, ahead, stream_advance_of_ne hhead hpop hplace]

theorem ahead_advance_isPrefix (hhead : t.InTurn head)
    (hpop : t.queue.pop? = some (head.turn, rest)) :
    t.advance.2.ahead head.place <+: events head.stream.drain.1 := by
  rw [ahead_of_stream (stream_advance hhead hpop)]
  exact head.stream.ahead_pass_isPrefix

@[simp] theorem taken_cons_self (head : PendingEvent) (later : List PendingEvent) :
    taken head.place (head :: later) = head.event :: taken head.place later := by
  simp [taken]

theorem taken_cons_of_ne (hplace : place ≠ head.place) (later : List PendingEvent) :
    taken place (head :: later) = taken place later := by
  simp [taken, Ne.symm hplace]

/-- What has been taken from a stream is what it was ahead of, in order and without a gap. -/
theorem taken_isPrefix (h : t.Consistent) (place : Nat) :
    taken place t.merged <+: t.ahead place := by
  fun_induction run t with
  | case1 t hmore hlt ih =>
    obtain ⟨head, rest, hhead, hpop⟩ := h.exists_inTurn hmore
    rw [merged_of_inTurn hmore hhead]
    by_cases hplace : place = head.place
    · subst hplace
      rw [ahead_of_inTurn hhead, taken_cons_self]
      exact List.cons_prefix_cons.2 ⟨rfl, (ih h.advance).trans (ahead_advance_isPrefix hhead hpop)⟩
    · rw [taken_cons_of_ne hplace, ← ahead_advance_of_ne hhead hpop hplace]
      exact ih h.advance
  | case2 t hend =>
    rw [merged_of_end hend]
    exact List.nil_prefix

theorem ahead_of_end (h : t.Consistent) (hend : ¬t.hasMore) (place : Nat) : t.ahead place = [] := by
  unfold ahead
  cases hstream : t.streams[place]? with
  | none => rfl
  | some stream =>
    cases hcurrent : stream.current with
    | none => exact ahead_of_none hcurrent
    | some event =>
      refine absurd ?_ hend
      have hmem := (h.mem_iff ⟨event.timestamp, place⟩).2 ⟨stream, event, hstream, hcurrent, rfl⟩
      unfold hasMore MergeQueue.isEmpty
      rw [List.isEmpty_eq_false_iff.2 (List.ne_nil_of_mem hmem)]
      rfl

/-- A stream that never fails twice in a row is merged to its end. -/
theorem taken_of_recovering (h : t.Consistent) (hstream : t.streams[place]? = some stream)
    (hrecovering : stream.current = none ∨ stream.Recovering) :
    taken place t.merged = t.ahead place := by
  fun_induction run t generalizing stream with
  | case1 t hmore hlt ih =>
    obtain ⟨head, rest, hhead, hpop⟩ := h.exists_inTurn hmore
    rw [merged_of_inTurn hmore hhead]
    by_cases hplace : place = head.place
    · subst hplace
      cases hhead.stream.symm.trans hstream
      rcases hrecovering with hnone | hrecovering
      · cases hhead.event.symm.trans hnone
      · obtain ⟨hahead, hlater⟩ := hrecovering.pass
        have hstream' := stream_advance hhead hpop
        rw [ahead_of_inTurn hhead, taken_cons_self, ih h.advance hstream' hlater,
          ahead_of_stream hstream', hahead]
    · rw [taken_cons_of_ne hplace, ← ahead_advance_of_ne hhead hpop hplace]
      exact ih h.advance ((stream_advance_of_ne hhead hpop hplace).trans hstream) hrecovering
  | case2 t hend =>
    rw [merged_of_end hend, ahead_of_end h hend]
    rfl

/-- A stream that meets no failure is merged to its end. -/
theorem taken_of_unfailing (h : t.Consistent) (hstream : t.streams[place]? = some stream)
    (hunfailing : stream.current = none ∨ stream.Unfailing) :
    taken place t.merged = t.ahead place :=
  taken_of_recovering h hstream (hunfailing.imp_right Unfailing.recovering)

/-- What a stream is ahead of starts with an event that waits. -/
theorem waits_of_mem_ahead {event : Event} (hmem : event ∈ t.ahead place)
    (hsorted : (t.ahead place).Pairwise fun a b => a.timestamp ≤ b.timestamp) :
    ∃ time ≤ event.timestamp, t.Waits ⟨time, place⟩ := by
  cases hstream : t.streams[place]? with
  | none =>
    rw [ahead, hstream] at hmem
    cases hmem
  | some stream =>
    rw [ahead_of_stream hstream] at hmem hsorted
    cases hcurrent : stream.current with
    | none =>
      rw [ahead_of_none hcurrent] at hmem
      cases hmem
    | some current =>
      rw [ahead_of_some hcurrent] at hmem hsorted
      refine ⟨current.timestamp, ?_, stream, current, hstream, hcurrent, rfl⟩
      rcases List.mem_cons.1 hmem with rfl | hlater
      · exact Nat.le_refl _
      · exact (List.pairwise_cons.1 hsorted).1 event hlater

theorem mem_taken {p : PendingEvent} {merged : List PendingEvent} (h : p ∈ merged) :
    p.event ∈ taken p.place merged :=
  List.mem_map.2 ⟨p, List.mem_filter.2 ⟨h, beq_self_eq_true _⟩, rfl⟩

/-- Streams that are in order by themselves are merged in order. -/
theorem pairwise_merged (h : t.Consistent)
    (hsorted : ∀ place, (t.ahead place).Pairwise fun a b => a.timestamp ≤ b.timestamp) :
    t.merged.Pairwise fun a b => a.turn ≤ b.turn := by
  fun_induction run t with
  | case1 t hmore hlt ih =>
    obtain ⟨head, rest, hhead, hpop⟩ := h.exists_inTurn hmore
    have hmerged := merged_of_inTurn hmore hhead
    rw [hmerged]
    refine List.pairwise_cons.2 ⟨fun later hlater => ?_, ih h.advance fun place => ?_⟩
    · -- a later event does not come before the one that its stream waits with now
      have hmem : later ∈ t.merged := hmerged ▸ List.mem_cons_of_mem head hlater
      have hahead := (taken_isPrefix h later.place).subset (mem_taken hmem)
      obtain ⟨time, hle, hwaits⟩ := waits_of_mem_ahead hahead (hsorted later.place)
      refine Turn.le_trans (hhead.least _ hwaits) (Turn.le_iff.2 ?_)
      rcases Nat.lt_or_eq_of_le hle with hlt | heq
      · exact .inl hlt
      · exact .inr ⟨heq, Nat.le_refl _⟩
    · by_cases hplace : place = head.place
      · subst hplace
        have hall := hsorted head.place
        rw [ahead_of_inTurn hhead] at hall
        exact (List.pairwise_cons.1 hall).2.sublist (ahead_advance_isPrefix hhead hpop).sublist
      · rw [ahead_advance_of_ne hhead hpop hplace]
        exact hsorted place
  | case2 t hend =>
    rw [merged_of_end hend]
    exact .nil

/-- Whatever state a run goes through has a current event, which is the first of those that
wait, and its queue is right. -/
theorem exists_inTurn_of_mem_run (h : t.Consistent) {s : TraceReader} (hs : s ∈ t.run) :
    s.Consistent ∧ ∃ head, s.InTurn head := by
  fun_induction run t with
  | case1 t hmore hlt ih =>
    rcases List.mem_cons.1 hs with rfl | hs
    · obtain ⟨head, rest, hhead, -⟩ := h.exists_inTurn hmore
      exact ⟨h, head, hhead⟩
    · exact ih h.advance hs
  | case2 t hend => cases hs

/-- What a file yields when it is read alone, failures left out. -/
def ownEvents (f : StreamFile) : List Event := events (StreamReader.start f).drain.1

/-- Merging opened files, past all failures: the current event is always the first of those that
wait; of each file a prefix of its events is taken in order, and all of them if it yields no
failure; and files that are in order by themselves are merged in order. -/
theorem merge_files {files : List StreamFile} (hfiles : files ≠ []) :
    ∃ t, ofFiles files = .ok t ∧
      (∀ s ∈ t.run, s.Consistent ∧ ∃ head, s.InTurn head) ∧
      (∀ place f, files[place]? = some f →
        taken place t.merged <+: ownEvents f ∧
          ((StreamReader.start f).Unfailing → taken place t.merged = ownEvents f)) ∧
      ((∀ f ∈ files, (ownEvents f).Pairwise fun a b => a.timestamp ≤ b.timestamp) →
        t.merged.Pairwise fun a b => a.turn ≤ b.turn) := by
  let opened : TraceReader := { streams := files.map StreamReader.start }
  have hopen : ofFiles files = .ok (opened.restart StreamReader.advance) := by
    unfold ofFiles
    rw [List.isEmpty_eq_false_iff.2 hfiles]
    rfl
  have h := consistent_restart opened
  have hstream {place : Nat} {f : StreamFile} (hf : files[place]? = some f) :
      (opened.restart StreamReader.advance).streams[place]? =
        some (StreamReader.start f).advance.2 := by
    simp [restart, opened, hf]
  refine ⟨_, hopen, fun s => exists_inTurn_of_mem_run h, fun place f hf => ⟨?_, fun hunf => ?_⟩,
    fun hsorted => pairwise_merged h fun place => ?_⟩
  · refine (taken_isPrefix h place).trans ?_
    rw [ahead_of_stream (hstream hf)]
    exact StreamReader.ahead_advance_isPrefix _
  · obtain ⟨hahead, hunf'⟩ := hunf.advance
    rw [taken_of_unfailing h (hstream hf) hunf', ahead_of_stream (hstream hf), hahead]
    rfl
  · cases hf : files[place]? with
    | none => simp [ahead, restart, opened, hf]
    | some f =>
      rw [ahead_of_stream (hstream hf)]
      exact (hsorted f (List.mem_of_getElem? hf)).sublist
        (StreamReader.ahead_advance_isPrefix _).sublist

/-- The same file twice: the events are all at one time, so those of the first place go first. -/
theorem merge_files_bytes :
    ∃ f t, StreamFile.ofInput byteTrace .clamp byteInput = .ok f ∧ [f, f] ≠ [] ∧
      ofFiles [f, f] = .ok t ∧
      t.merged.map (fun p => (p.place, p.event.number? "value")) =
        [(0, some 1), (0, some 2), (1, some 1), (1, some 2)] ∧
      taken 0 t.merged = ownEvents f ∧ taken 1 t.merged = ownEvents f ∧
      t.merged.Pairwise fun a b => a.turn ≤ b.turn := by
  have hrun : (StreamFile.ofInput byteTrace .clamp byteInput).toOption.map (fun f =>
      ((StreamReader.start f).drain.1.all (·.toOption.isSome),
        (ownEvents f).map (·.timestamp), (ofFiles [f, f]).toOption.map fun t =>
          t.merged.map fun p => (p.place, p.event.number? "value"))) =
        some (true, [0, 0], some [(0, some 1), (0, some 2), (1, some 1), (1, some 2)]) := by
    decide +kernel
  obtain ⟨f, h, hrun⟩ := exists_eq_ok hrun
  obtain ⟨hall, hrun⟩ := Prod.mk.inj hrun
  obtain ⟨htimes, hmerged⟩ := Prod.mk.inj hrun
  have hunfailing : (StreamReader.start f).Unfailing := fun e he => by
    cases List.all_eq_true.1 hall _ he
  have hsorted : ∀ g ∈ [f, f], (ownEvents g).Pairwise fun a b => a.timestamp ≤ b.timestamp := by
    have hordered : ((ownEvents f).map (·.timestamp)).Pairwise (· ≤ ·) := by
      rw [htimes]
      decide
    intro g hg
    obtain rfl : g = f := by simpa using hg
    exact List.pairwise_map.1 hordered
  have hfiles : [f, f] ≠ [] := List.cons_ne_nil _ _
  obtain ⟨t, ht, -, htaken, hturns⟩ := merge_files hfiles
  rw [ht] at hmerged
  exact ⟨f, t, h, hfiles, ht, Option.some.inj hmerged, (htaken 0 f rfl).2 hunfailing,
    (htaken 1 f rfl).2 hunfailing, hturns hsorted⟩

end TraceReader

end CommonTrace
