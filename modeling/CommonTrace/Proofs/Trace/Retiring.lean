import CommonTrace.Proofs.Stream.Repositioning
import CommonTrace.Proofs.Trace.Merge

/-!
# When a stream leaves the merge

A record is kept beside a trace reader of the steps that each of its streams takes: when the
reader is made, when it moves past an event of the stream, once more if that fails, and when it
is moved to a time. The record tells why a stream does not wait: it has ended, or its last two
steps have failed, or it has failed when the reader was made or moved to a time, where no stream
is tried again. A stream that waits is merged to its end unless it fails twice in a row.
-/
namespace CommonTrace

namespace StreamReader

/-- What a stream takes a step for: its reader is made, or moves past an event of the stream, or
the step for that has failed, or the reader is moved to a time. -/
inductive Occasion where
  | start
  | next
  | again
  | seek
  deriving DecidableEq, Repr

/-- A step of a stream, with the stream as it was before. -/
structure Attempt where
  occasion : Occasion
  stream : StreamReader

/-- What a step has yielded. -/
def Attempt.outcome (a : Attempt) : Outcome := a.stream.advance.1

/-- What a step has left. -/
def Attempt.left (a : Attempt) : StreamReader := a.stream.advance.2

/-- The steps of passing on, the last one first. -/
def passAttempts (r : StreamReader) : List Attempt :=
  match r.advance with
  | (.error _, r') => [⟨.again, r'⟩, ⟨.next, r⟩]
  | (.ok _, _) => [⟨.next, r⟩]

/-- The steps of skipping the events before a time, the last one first. -/
def skipAttempts (r : StreamReader) (timestamp : Nat) : List Attempt :=
  match h : r.advance with
  | (.ok (some event), r') =>
    have := workLeft_lt_of_advance h (by simp)
    if event.timestamp < timestamp then skipAttempts r' timestamp ++ [⟨.seek, r⟩]
    else [⟨.seek, r⟩]
  | _ => [⟨.seek, r⟩]
termination_by r.workLeft

/-- The steps of moving to a time, the last one first. -/
def seekAttempts (r : StreamReader) (timestamp : Nat) : List Attempt :=
  skipAttempts
    { r with packet := none, nextPacket := r.file.index.found timestamp, current := none } timestamp

/-- Whether the last step has found the end of the stream. -/
def Ended (attempts : List Attempt) : Prop :=
  ∃ last earlier, attempts = last :: earlier ∧ last.outcome = .ok none

/-- Whether the last two steps have failed, of which the second was taken right after the first. -/
def FailedTwice (attempts : List Attempt) : Prop :=
  ∃ last previous earlier e e', attempts = last :: previous :: earlier ∧
    last.outcome = .error e ∧ previous.outcome = .error e' ∧ last.stream = previous.left

/-- Whether the last step has failed and was one of making the reader or of moving it to a time,
which is not tried again. -/
def FailedOnce (attempts : List Attempt) : Prop :=
  ∃ last earlier e, attempts = last :: earlier ∧ last.outcome = .error e ∧
    (last.occasion = .start ∨ last.occasion = .seek)

/-- The steps that a stream has taken, the last one first, have led to it: a failure on passing on
is always followed by another step. -/
inductive Accounts : List Attempt → StreamReader → Prop
  | single (last : Attempt) (earlier : List Attempt)
      (h : ∀ e, last.outcome = .error e → last.occasion = .start ∨ last.occasion = .seek) :
      Accounts (last :: earlier) last.left
  | again {first : Attempt} {e : Error} (earlier : List Attempt) (h : first.outcome = .error e) :
      Accounts (⟨.again, first.left⟩ :: first :: earlier) first.left.advance.2

variable {r : StreamReader} {attempts : List Attempt}

theorem accounts_start (r : StreamReader) : Accounts [⟨.start, r⟩] r.advance.2 :=
  .single ⟨.start, r⟩ [] fun _ _ => .inl rfl

theorem accounts_pass (r : StreamReader) (earlier : List Attempt) :
    Accounts (r.passAttempts ++ earlier) r.pass.2 := by
  unfold passAttempts
  rcases hstep : r.advance with ⟨out, r'⟩
  have hleft : (⟨.next, r⟩ : Attempt).left = r' := congrArg Prod.snd hstep
  have hout : (⟨.next, r⟩ : Attempt).outcome = out := congrArg Prod.fst hstep
  cases out with
  | error e =>
    rw [pass_of_error hstep, ← hleft]
    exact .again earlier hout
  | ok event? =>
    rw [pass_of_ok hstep]
    refine hleft ▸ .single ⟨.next, r⟩ earlier fun e he => ?_
    cases hout.symm.trans he

/-- The last step of skipping events has yielded and left what skipping does. -/
theorem skipAttempts_eq (r : StreamReader) (timestamp : Nat) :
    ∃ r' earlier, r.skipAttempts timestamp = ⟨.seek, r'⟩ :: earlier ∧
      r'.advance = r.skipBefore timestamp := by
  fun_induction skipBefore r timestamp with
  | case1 r event r' hstep hlt hbefore ih =>
    obtain ⟨last, earlier, hattempts, hlast⟩ := ih
    refine ⟨last, earlier ++ [⟨.seek, r⟩], ?_, hlast⟩
    rw [skipAttempts]
    split
    next event' r'' hstep' =>
      cases hstep.symm.trans hstep'
      rw [if_pos hbefore, hattempts, List.cons_append]
    next hother => exact (hother event r' hstep).elim
  | case2 r event r' hstep hlt hbefore =>
    refine ⟨r, [], ?_, hstep⟩
    rw [skipAttempts]
    split
    next event' r'' hstep' =>
      cases hstep.symm.trans hstep'
      rw [if_neg hbefore]
    next => rfl
  | case3 r hother =>
    refine ⟨r, [], ?_, rfl⟩
    rw [skipAttempts]
    split
    next event r' hstep => exact (hother event r' hstep).elim
    next => rfl

theorem accounts_seek (r : StreamReader) (timestamp : Nat) (earlier : List Attempt) :
    Accounts (r.seekAttempts timestamp ++ earlier) (r.seek timestamp).2 := by
  obtain ⟨last, before, hattempts, hlast⟩ := skipAttempts_eq
    { r with packet := none, nextPacket := r.file.index.found timestamp, current := none } timestamp
  have hleft : (⟨.seek, last⟩ : Attempt).left = (r.seek timestamp).2 := congrArg Prod.snd hlast
  rw [seekAttempts, hattempts, List.cons_append, ← hleft]
  exact .single ⟨.seek, last⟩ (before ++ earlier) fun _ _ => .inr rfl

/-- A stream that has no event has ended or failed. -/
theorem Accounts.of_none (h : Accounts attempts r) (hnone : r.current = none) :
    Ended attempts ∨ FailedTwice attempts ∨ FailedOnce attempts := by
  cases h with
  | single last earlier hfails =>
    have hevent : last.outcome.event? = none := (current_advance last.stream).symm.trans hnone
    cases hout : last.outcome with
    | error e => exact .inr (.inr ⟨last, earlier, e, rfl, hout, hfails e hout⟩)
    | ok event? =>
      rw [hout] at hevent
      cases hevent
      exact .inl ⟨last, earlier, rfl, hout⟩
  | @again first e earlier hfirst =>
    have hevent := (current_advance first.left).symm.trans hnone
    cases hout : first.left.advance.1 with
    | error e' => exact .inr (.inl ⟨_, first, earlier, e', e, rfl, hout, hfirst, rfl⟩)
    | ok event? =>
      rw [hout] at hevent
      cases hevent
      exact .inl ⟨_, first :: earlier, rfl, hout⟩

end StreamReader

namespace TraceReader

open StreamReader

variable {t : TraceReader} {streams : List StreamReader} {attempts : List (List Attempt)}
  {place : Nat}

/-- The steps that each stream has taken after a move, given those before it. -/
def recorded (t : TraceReader) (attempts : List (List Attempt)) : Move → List (List Attempt)
  | .advance =>
    match t.queue.peek? with
    | none => attempts
    | some turn =>
      match t.streams[turn.place]? with
      | none => attempts
      | some stream => attempts.modify turn.place (stream.passAttempts ++ ·)
  | .seek timestamp =>
    List.zipWith (fun earlier stream => stream.seekAttempts timestamp ++ earlier) attempts t.streams

/-- The steps that each stream has taken after some moves, given those before. -/
def recordedAll (t : TraceReader) (attempts : List (List Attempt)) : List Move →
    List (List Attempt)
  | [] => attempts
  | move :: moves => (t.moved move).recordedAll (t.recorded attempts move) moves

/-- The steps that some streams have taken when a reader has been made of them and moved. -/
def attemptsOf (t : TraceReader) (streams : List StreamReader) (moves : List Move) :
    List (List Attempt) :=
  t.recordedAll (streams.map fun r => [⟨.start, r⟩]) moves

theorem accounts_recorded (h : List.Forall₂ Accounts attempts t.streams) (move : Move) :
    List.Forall₂ Accounts (t.recorded attempts move) (t.moved move).streams := by
  cases move with
  | advance =>
    unfold recorded moved
    dsimp only
    cases hpop : t.queue.pop? with
    | none =>
      rw [advance_of_empty hpop, MergeQueue.peek?_eq_none.2 (MergeQueue.pop?_eq_none.1 hpop)]
      exact h
    | some popped =>
      obtain ⟨turn, rest⟩ := popped
      rw [MergeQueue.peek?_eq_some.2 ⟨rest, hpop⟩]
      dsimp only
      cases hstream : t.streams[turn.place]? with
      | none =>
        rw [advance_of_lost hpop hstream]
        exact h
      | some stream =>
        obtain ⟨earlier, hearlier, -⟩ := exists_getElem?_of_forall₂ h hstream
        rw [advance_of_pop hpop hstream]
        dsimp only
        rw [List.modify_eq_set_getElem?, hearlier]
        exact forall₂_set h (stream.accounts_pass earlier) turn.place
  | seek timestamp =>
    show List.Forall₂ Accounts (List.zipWith _ attempts t.streams)
      ((t.streams.map fun stream => stream.seek timestamp).map (·.2))
    generalize t.streams = streams at h
    induction h with
    | nil => exact .nil
    | cons hhead htail ih => exact .cons (accounts_seek _ timestamp _) ih

theorem accounts_recordedAll (h : List.Forall₂ Accounts attempts t.streams) (moves : List Move) :
    List.Forall₂ Accounts (t.recordedAll attempts moves) (t.after moves).streams := by
  induction moves generalizing t attempts with
  | nil => exact h
  | cons move moves ih => exact ih (accounts_recorded h move)

theorem accounts_attemptsOf (h : ofStreams streams = .ok t) (moves : List Move) :
    List.Forall₂ Accounts (t.attemptsOf streams moves) (t.after moves).streams := by
  refine accounts_recordedAll ?_ moves
  unfold ofStreams at h
  split at h
  · cases h
  cases h
  unfold restart
  simp only [List.forall₂_map_left_iff, List.forall₂_map_right_iff, List.forall₂_same]
  exact fun r _ => r.accounts_start

theorem consistent_moved (h : t.Consistent) (move : Move) : (t.moved move).Consistent := by
  cases move with
  | advance => exact h.advance
  | seek timestamp => exact t.consistent_restart_of fun r => r.current_seek timestamp

/-- A stream waits if it has an event, with the time of that event, and does not otherwise. -/
theorem Consistent.waits_or_not (h : t.Consistent) {stream : StreamReader}
    (hstream : t.streams[place]? = some stream) :
    (∃ event, stream.current = some event ∧ ⟨event.timestamp, place⟩ ∈ t.queue.turns) ∨
      stream.current = none ∧ ∀ turn ∈ t.queue.turns, turn.place ≠ place := by
  cases hcurrent : stream.current with
  | some event => exact .inl ⟨event, rfl, (h.mem_iff _).2 ⟨stream, event, hstream, hcurrent, rfl⟩⟩
  | none =>
    refine .inr ⟨rfl, fun turn hturn hplace => ?_⟩
    obtain ⟨stream', event, hstream', hevent, -⟩ := (h.mem_iff turn).1 hturn
    rw [hplace] at hstream'
    cases hstream.symm.trans hstream'
    cases hcurrent.symm.trans hevent

/-- However a reader of some streams is moved, a stream that does not wait has ended, or has failed
twice in a row, or has failed when the reader was made or moved to a time. A stream that waits is
merged to its end unless it fails twice in a row later on. -/
theorem waits_unless_ended (hstreams : streams ≠ []) :
    ∃ t, ofStreams streams = .ok t ∧ ∀ (moves : List Move) place stream,
      (t.after moves).streams[place]? = some stream →
        (∃ attempts, (t.attemptsOf streams moves)[place]? = some attempts ∧
          Accounts attempts stream ∧
          ((∃ event, stream.current = some event ∧
              ⟨event.timestamp, place⟩ ∈ (t.after moves).queue.turns) ∨
            (∀ turn ∈ (t.after moves).queue.turns, turn.place ≠ place) ∧
              (Ended attempts ∨ FailedTwice attempts ∨ FailedOnce attempts))) ∧
        (stream.Recovering → taken place (t.after moves).merged = stream.ahead) := by
  refine ⟨_, ofStreams_eq_ok hstreams, fun moves place stream hstream => ?_⟩
  have hconsistent := after_induction (P := Consistent) (fun _ move h => consistent_moved h move)
    (consistent_restart { streams }) moves
  refine ⟨?_, fun hrecovering => ?_⟩
  · obtain ⟨attempts, hattempts, haccounts⟩ :=
      exists_getElem?_of_forall₂ (accounts_attemptsOf (ofStreams_eq_ok hstreams) moves) hstream
    refine ⟨attempts, hattempts, haccounts, ?_⟩
    rcases hconsistent.waits_or_not hstream with hwaits | ⟨hnone, hplace⟩
    · exact .inl hwaits
    · exact .inr ⟨hplace, haccounts.of_none hnone⟩
  · rw [taken_of_recovering hconsistent hstream (.inr hrecovering), ahead_of_stream hstream]

/-- The stream fails on moving past its first event, and is tried again. -/
theorem waits_unless_ended_content :
    ∃ f t stream attempts, StreamFile.ofInput contentTrace .clamp contentInput = .ok f ∧
      [StreamReader.start f] ≠ [] ∧ ofStreams [StreamReader.start f] = .ok t ∧
      (t.after [.advance]).streams[0]? = some stream ∧
      (t.attemptsOf [StreamReader.start f] [.advance])[0]? = some attempts ∧
      attempts.map (·.occasion) = [.again, .next, .start] ∧ Accounts attempts stream := by
  have hrun : (StreamFile.ofInput contentTrace .clamp contentInput).toOption.map (fun f =>
      ((restart { streams := [StreamReader.start f] } StreamReader.advance).attemptsOf
        [StreamReader.start f] [.advance])[0]?.map (·.map (·.occasion))) =
          some (some [.again, .next, .start]) := by
    decide +kernel
  obtain ⟨f, h, hrun⟩ := exists_eq_ok hrun
  obtain ⟨attempts, hattempts, hoccasions⟩ := Option.map_eq_some_iff.1 hrun
  have hne : [StreamReader.start f] ≠ [] := List.cons_ne_nil _ _
  obtain ⟨t, ht, hmoves⟩ := waits_unless_ended hne
  cases (ofStreams_eq_ok hne).symm.trans ht
  obtain ⟨stream, hstream, -⟩ := exists_getElem?_of_forall₂
    (accounts_attemptsOf ht [.advance]).flip hattempts
  obtain ⟨⟨attempts', hattempts', haccounts, -⟩, -⟩ := hmoves [.advance] 0 stream hstream
  cases hattempts.symm.trans hattempts'
  exact ⟨f, _, stream, attempts, h, hne, ht, hstream, hattempts, hoccasions, haccounts⟩

/-- A file of two packets, the first of which ends within its only event. -/
def cutInput : Input := { path := "stream", content := .ok ⟨#[20, 24, 1, 24, 24, 2]⟩ }

/-- The second packet can be read, but the stream does not wait after its first step, which is the
only one that it has taken. -/
theorem not_waits_at_first_failure :
    ∃ f t attempts, StreamFile.ofInput contentTrace .clamp cutInput = .ok f ∧
      ofStreams [StreamReader.start f] = .ok t ∧
      t.attemptsOf [StreamReader.start f] [] = [attempts] ∧ t.queue.turns = [] ∧
      ¬Ended attempts ∧ ¬FailedTwice attempts ∧ t.merged = [] ∧
      (ownEvents f).map (·.name) = ["byte"] := by
  have hrun : (StreamFile.ofInput contentTrace .clamp cutInput).toOption.map (fun f =>
      ((StreamReader.start f).advance.1.isOk,
        (restart { streams := [StreamReader.start f] } StreamReader.advance).queue.turns,
        (ownEvents f).map (·.name))) =
          some (false, [], ["byte"]) := by
    decide +kernel
  obtain ⟨f, h, hrun⟩ := exists_eq_ok hrun
  simp only [Prod.mk.injEq] at hrun
  obtain ⟨hfails, hturns, hevents⟩ := hrun
  refine ⟨f, _, [⟨.start, StreamReader.start f⟩], h, ofStreams_eq_ok (List.cons_ne_nil _ _),
    rfl, hturns, ?_, ?_, ?_, hevents⟩
  · rintro ⟨last, earlier, heq, hend⟩
    cases heq
    rw [Attempt.outcome] at hend
    rw [hend] at hfails
    cases hfails
  · rintro ⟨last, previous, earlier, e, e', heq, -⟩
    cases heq
  · refine merged_of_end fun hmore => ?_
    unfold hasMore MergeQueue.isEmpty at hmore
    rw [hturns] at hmore
    cases hmore

end TraceReader

end CommonTrace
