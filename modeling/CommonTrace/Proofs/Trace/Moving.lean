import CommonTrace.Proofs.Stream.Ahead
import CommonTrace.Trace.Reader
import Mathlib.Data.List.Forall2

/-!
# Moving a trace reader

A reader of a trace is moved past its current event, which moves one of its streams, or to a
time, which moves all of them. So what holds of the stream at each place and is kept by the
moves of streams holds however the reader has been moved.
-/
namespace CommonTrace

/-- Things related at each place stay so when they are replaced by related ones at one place. -/
theorem forall₂_set {α β : Type} {R : α → β → Prop} {as : List α} {bs : List β} {a : α} {b : β}
    (h : List.Forall₂ R as bs) (hab : R a b) (place : Nat) :
    List.Forall₂ R (as.set place a) (bs.set place b) := by
  induction h generalizing place with
  | nil => exact .nil
  | cons hhead htail ih =>
    cases place with
    | zero => exact .cons hab htail
    | succ place => exact .cons hhead (ih place)

/-- Things related at each place are there at the same places. -/
theorem exists_getElem?_of_forall₂ {α β : Type} {R : α → β → Prop} {as : List α} {bs : List β}
    {b : β} {place : Nat} (h : List.Forall₂ R as bs) (hb : bs[place]? = some b) :
    ∃ a, as[place]? = some a ∧ R a b := by
  obtain ⟨hlt, rfl⟩ := List.getElem?_eq_some_iff.1 hb
  have hlt' : place < as.length := h.length_eq ▸ hlt
  exact ⟨as[place], List.getElem?_eq_getElem hlt', h.get hlt' hlt⟩

/-- What moving past an event answers, given what the step of its stream has yielded and the
queue of the other streams. -/
def MergeQueue.answer (others : MergeQueue) : StreamReader.Outcome → Except Error Bool
  | .ok (some _) => .ok true
  | .ok none => .ok !others.isEmpty
  | .error e => .error e

namespace TraceReader

variable {t : TraceReader} {turn : Turn} {rest : MergeQueue} {stream : StreamReader}

theorem advance_of_empty (hpop : t.queue.pop? = none) : t.advance = (.ok false, t) := by
  rw [advance, hpop]

theorem advance_of_lost (hpop : t.queue.pop? = some (turn, rest))
    (hlost : t.streams[turn.place]? = none) :
    t.advance = (.ok !rest.isEmpty, { t with queue := rest }) := by
  rw [advance, hpop]
  dsimp only
  rw [hlost]

/-- The stream whose turn it is takes a step, and one more if it fails, and waits again if it
has an event then. -/
theorem advance_of_pop (hpop : t.queue.pop? = some (turn, rest))
    (hstream : t.streams[turn.place]? = some stream) :
    t.advance = (rest.answer stream.advance.1,
      t.withStream turn.place stream.pass.2 (rest.requeue turn.place stream.pass.1)) := by
  rw [advance, hpop]
  dsimp only
  rw [hstream]
  dsimp only
  rcases hstep : stream.advance with ⟨out, stream'⟩
  cases out with
  | error e =>
    rw [StreamReader.pass_of_error hstep]
    rfl
  | ok event? =>
    rw [StreamReader.pass_of_ok hstep]
    cases event? <;> rfl

/-- What a reader is asked to do. -/
inductive Move where
  | advance
  | seek (timestamp : Nat)

/-- The reader after a move. -/
def moved (t : TraceReader) : Move → TraceReader
  | .advance => t.advance.2
  | .seek timestamp => t.seek timestamp

/-- The reader after some moves. -/
def after (t : TraceReader) (moves : List Move) : TraceReader := moves.foldl moved t

/-- What is kept by single moves is kept by all of them. -/
theorem after_induction {P : TraceReader → Prop} (hmoved : ∀ t move, P t → P (t.moved move))
    (h : P t) (moves : List Move) : P (t.after moves) := by
  induction moves generalizing t with
  | nil => exact h
  | cons move moves ih => exact ih (hmoved t move h)

section Streams

variable {α : Type} {R : α → StreamReader → Prop} {items : List α}

theorem forall₂_restart {move : StreamReader → StreamReader.Outcome × StreamReader}
    (hmove : ∀ a r, R a r → R a (move r).2) (h : List.Forall₂ R items t.streams) :
    List.Forall₂ R items (t.restart move).streams := by
  show List.Forall₂ R items ((t.streams.map move).map (·.2))
  rw [List.map_map, List.forall₂_map_right_iff]
  exact h.imp hmove

theorem forall₂_advance (hadvance : ∀ a r, R a r → R a r.advance.2)
    (h : List.Forall₂ R items t.streams) : List.Forall₂ R items t.advance.2.streams := by
  cases hpop : t.queue.pop? with
  | none =>
    rw [advance_of_empty hpop]
    exact h
  | some popped =>
    obtain ⟨turn, rest⟩ := popped
    cases hstream : t.streams[turn.place]? with
    | none =>
      rw [advance_of_lost hpop hstream]
      exact h
    | some stream =>
      rw [advance_of_pop hpop hstream]
      obtain ⟨a, ha, hR⟩ := exists_getElem?_of_forall₂ h hstream
      have hset := forall₂_set h (StreamReader.pass_induction (hadvance a) hR) turn.place
      obtain ⟨hlt, rfl⟩ := List.getElem?_eq_some_iff.1 ha
      rwa [List.set_getElem_self] at hset

/-- What holds of the stream at each place and is kept when a stream is moved holds after all
moves of the reader. -/
theorem forall₂_after (hadvance : ∀ a r, R a r → R a r.advance.2)
    (hseek : ∀ a r timestamp, R a r → R a (r.seek timestamp).2)
    (h : List.Forall₂ R items t.streams) (moves : List Move) :
    List.Forall₂ R items (t.after moves).streams := by
  refine after_induction (P := fun t => List.Forall₂ R items t.streams) (fun t move ht => ?_) h
    moves
  cases move with
  | advance => exact forall₂_advance hadvance ht
  | seek timestamp => exact forall₂_restart (fun a r => hseek a r timestamp) ht

end Streams

/-- A reader of some streams is made by moving each of them to its first event. -/
theorem ofStreams_eq_ok {streams : List StreamReader} (hstreams : streams ≠ []) :
    ofStreams streams = .ok (restart { streams } StreamReader.advance) := by
  rw [ofStreams, List.isEmpty_eq_false_iff.2 hstreams]
  rfl

end TraceReader

end CommonTrace
