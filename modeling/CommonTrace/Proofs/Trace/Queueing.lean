import CommonTrace.Proofs.Trace.Retiring

/-!
# The queue matches the streams

The queue of a trace reader keeps the times of events that the streams themselves hold. However the
reader is moved, and whatever its moves answer, at the place of each stream that has an event there
is one turn, which has the time of that event, and there is no other turn. So there is an event to
come exactly if there is a current one, what a move answers is what can be seen then, and moving
past an event moves the stream of that event and no other.
-/
namespace CommonTrace.TraceReader

variable {t : TraceReader} {place : Nat}

/-- The turns that wait at a place. -/
def turnsAt (t : TraceReader) (place : Nat) : List Turn := t.queue.turns.filter (·.place = place)

/-- The turn that the stream at a place should have: one with the time of its event, if there is a
stream and it has an event. -/
def turnOf? (t : TraceReader) (place : Nat) : Option Turn :=
  (t.streams[place]?.bind (·.current)).map fun event => ⟨event.timestamp, place⟩

/-- What a move answers: whether there is an event to come, unless it fails. -/
def answered (t : TraceReader) : Move → Except Error Bool
  | .advance => t.advance.1
  | .seek timestamp => .ok (t.seek timestamp).hasMore

theorem turnOf?_eq_some {turn : Turn} :
    t.turnOf? place = some turn ↔ turn.place = place ∧ t.Waits turn := by
  unfold turnOf? Waits
  rw [Option.map_eq_some_iff]
  constructor
  · rintro ⟨event, hevent, rfl⟩
    obtain ⟨stream, hstream, hcurrent⟩ := Option.bind_eq_some_iff.1 hevent
    exact ⟨rfl, stream, event, hstream, hcurrent, rfl⟩
  · rintro ⟨rfl, stream, event, hstream, hcurrent, htime⟩
    refine ⟨event, Option.bind_eq_some_iff.2 ⟨stream, hstream, hcurrent⟩, ?_⟩
    rw [htime]

/-- Among turns at different places there is one at most at each place. -/
theorem filter_place_of_mem {turns : List Turn} (h : (turns.map Turn.place).Nodup) {turn : Turn}
    (hmem : turn ∈ turns) : turns.filter (·.place = turn.place) = [turn] := by
  obtain ⟨before, after, rfl⟩ := List.append_of_mem hmem
  rw [List.map_append, List.map_cons, List.nodup_append, List.nodup_cons] at h
  obtain ⟨-, ⟨hafter, -⟩, hbefore⟩ := h
  have hnone : before.filter (·.place = turn.place) = [] := by
    refine List.filter_eq_nil_iff.2 fun other hother => ?_
    simpa using hbefore other.place (List.mem_map_of_mem hother) turn.place List.mem_cons_self
  have hnone' : after.filter (·.place = turn.place) = [] := by
    refine List.filter_eq_nil_iff.2 fun other hother => ?_
    intro heq
    exact hafter (of_decide_eq_true heq ▸ List.mem_map_of_mem hother)
  rw [List.filter_append, hnone, List.filter_cons_of_pos (by simp), hnone', List.nil_append]

namespace Consistent

/-- At each place there is the turn that its stream should have, and no other. -/
theorem turnsAt_eq (h : t.Consistent) (place : Nat) :
    t.turnsAt place = (t.turnOf? place).toList := by
  cases hturn : t.turnOf? place with
  | none =>
    refine List.filter_eq_nil_iff.2 fun turn hmem hplace => ?_
    have hwaits := turnOf?_eq_some.2 ⟨of_decide_eq_true hplace, (h.mem_iff turn).1 hmem⟩
    cases hturn.symm.trans hwaits
  | some turn =>
    obtain ⟨rfl, hwaits⟩ := turnOf?_eq_some.1 hturn
    exact filter_place_of_mem h.nodup ((h.mem_iff turn).2 hwaits)

/-- There is an event to come if and only if there is a current one. -/
theorem hasMore_iff_current (h : t.Consistent) : t.hasMore ↔ ∃ head, t.current? = some head := by
  constructor
  · intro hmore
    obtain ⟨head, -, hhead, -⟩ := h.exists_inTurn hmore
    exact ⟨head, hhead.current⟩
  · rintro ⟨head, hhead⟩
    obtain ⟨turn, hpeek, -⟩ := peek?_of_current? hhead
    obtain ⟨rest, hpop⟩ := MergeQueue.peek?_eq_some.1 hpeek
    exact hasMore_iff.2 ⟨(turn, rest), hpop⟩

/-- What moving past an event answers, unless it fails, can be seen of the queue that is left. -/
theorem answer_advance (h : t.Consistent) {more : Bool} (hanswer : t.advance.1 = .ok more) :
    more = t.advance.2.hasMore := by
  cases hpop : t.queue.pop? with
  | none =>
    rw [advance_of_empty hpop] at hanswer ⊢
    cases hanswer
    simp [hasMore, MergeQueue.isEmpty, MergeQueue.pop?_eq_none.1 hpop]
  | some popped =>
    obtain ⟨turn, rest⟩ := popped
    obtain ⟨stream, event, hstream, -⟩ := h.exists_stream hpop
    rw [advance_of_pop hpop hstream] at hanswer ⊢
    rcases hstep : stream.advance with ⟨out, stream'⟩
    rw [hstep] at hanswer
    cases out with
    | error e => cases hanswer
    | ok event? =>
      rw [StreamReader.pass_of_ok hstep]
      cases event? with
      | none =>
        cases hanswer
        rfl
      | some event =>
        cases hanswer
        -- the stream waits again, so the queue is not empty
        have hlength := rest.length_push ⟨event.timestamp, turn.place⟩
        have hne : (rest.push ⟨event.timestamp, turn.place⟩).turns ≠ [] :=
          List.ne_nil_of_length_eq_add_one hlength
        show true = !(rest.push ⟨event.timestamp, turn.place⟩).turns.isEmpty
        rw [List.isEmpty_eq_false_iff.2 hne]
        rfl

/-- Moving past an event replaces the stream of that event by what it has been moved to. -/
theorem streams_advance (h : t.Consistent) (hmore : t.hasMore) :
    ∃ head, t.InTurn head ∧
      t.advance.2.streams = t.streams.set head.place head.stream.pass.2 := by
  obtain ⟨head, rest, hhead, hpop⟩ := h.exists_inTurn hmore
  refine ⟨head, hhead, ?_⟩
  rw [advance_of_pop hpop hhead.stream]
  rfl

end Consistent

/-- The queue of a reader matches its streams: at each place it has the one turn that the stream
there should have, if it should have one. -/
structure Queued (t : TraceReader) : Prop where
  turnsAt_eq : ∀ place, t.turnsAt place = (t.turnOf? place).toList
  hasMore_iff : t.hasMore ↔ ∃ head, t.current? = some head
  answered_eq : ∀ move more, t.answered move = .ok more → more = (t.moved move).hasMore
  streams_advance : t.hasMore → ∃ head, t.InTurn head ∧
    t.advance.2.streams = t.streams.set head.place head.stream.pass.2

theorem Consistent.queued (h : t.Consistent) : t.Queued where
  turnsAt_eq := h.turnsAt_eq
  hasMore_iff := h.hasMore_iff_current
  answered_eq move more hanswer := by
    cases move with
    | advance => exact h.answer_advance hanswer
    | seek timestamp =>
      cases hanswer
      rfl
  streams_advance := h.streams_advance

/-- However a reader of some streams is moved, its queue matches its streams. -/
theorem queued_after {streams : List StreamReader} (hstreams : streams ≠ []) :
    ∃ t, ofStreams streams = .ok t ∧ ∀ moves, (t.after moves).Queued := by
  refine ⟨_, ofStreams_eq_ok hstreams, fun moves => Consistent.queued ?_⟩
  exact after_induction (P := Consistent) (fun _ move h => consistent_moved h move)
    (consistent_restart { streams }) moves

/-- The first of two streams fails on moving past its event, is tried again and has ended then. The
turn of the other one stays. -/
theorem queued_after_content :
    ∃ f t, StreamFile.ofInput StreamReader.contentTrace .clamp StreamReader.contentInput = .ok f ∧
      [StreamReader.start f, StreamReader.start f] ≠ [] ∧
      ofStreams [StreamReader.start f, StreamReader.start f] = .ok t ∧
      (t.answered .advance).isOk = false ∧ t.turnsAt 0 = [⟨0, 0⟩] ∧
      (t.after [.advance]).turnsAt 0 = [] ∧ (t.after [.advance]).turnsAt 1 = [⟨0, 1⟩] ∧
      (t.after [.advance]).Queued := by
  have hrun : (StreamFile.ofInput StreamReader.contentTrace .clamp
      StreamReader.contentInput).toOption.map (fun f =>
        let t := restart { streams := [StreamReader.start f, StreamReader.start f] }
          StreamReader.advance
        ((t.answered .advance).isOk, t.turnsAt 0, (t.after [.advance]).turnsAt 0,
          (t.after [.advance]).turnsAt 1)) = some (false, [⟨0, 0⟩], [], [⟨0, 1⟩]) := by
    decide +kernel
  obtain ⟨f, h, hrun⟩ := exists_eq_ok hrun
  have hne : [StreamReader.start f, StreamReader.start f] ≠ [] := List.cons_ne_nil _ _
  obtain ⟨t, ht, hqueued⟩ := queued_after hne
  cases (ofStreams_eq_ok hne).symm.trans ht
  simp only [Prod.mk.injEq] at hrun
  obtain ⟨hanswer, hbefore, hfirst, hsecond⟩ := hrun
  exact ⟨f, _, h, hne, ht, hanswer, hbefore, hfirst, hsecond, hqueued [.advance]⟩

end CommonTrace.TraceReader
