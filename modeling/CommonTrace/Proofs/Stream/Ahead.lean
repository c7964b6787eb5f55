import CommonTrace.Stream.Reader
import Mathlib.Data.List.Chain

/-!
# What a reader is ahead of

A reader that has been moved to an event is ahead of that event and of all that it yields
from then on, failures left out. Moving on takes the event away and nothing else, unless
the reader fails: it has no event then, and finds the next one if it is moved once more. So
a reader that is moved again after a failure loses nothing as long as it does not fail twice
in a row.
-/
namespace CommonTrace.StreamReader

variable {r r' : StreamReader} {event : Event} {e : Error}

/-- The event that a step of reading yields, if there is one. -/
def Outcome.event? : Outcome → Option Event
  | .ok event? => event?
  | .error _ => none

/-- The events among some results, in order. -/
def events (results : List (Except Error Event)) : List Event :=
  results.filterMap Except.toOption

@[simp] theorem events_nil : events [] = [] := rfl

@[simp] theorem events_ok (event : Event) (rest : List (Except Error Event)) :
    events (.ok event :: rest) = event :: events rest :=
  rfl

@[simp] theorem events_error (e : Error) (rest : List (Except Error Event)) :
    events (.error e :: rest) = events rest :=
  rfl

@[simp] theorem events_append (first rest : List (Except Error Event)) :
    events (first ++ rest) = events first ++ events rest :=
  List.filterMap_append

theorem mem_events {results : List (Except Error Event)} :
    event ∈ events results ↔ .ok event ∈ results := by
  unfold events
  rw [List.mem_filterMap]
  constructor
  · rintro ⟨result, hmem, hevent⟩
    cases result with
    | error e => cases hevent
    | ok event' =>
      cases hevent
      exact hmem
  · exact fun hmem => ⟨.ok event, hmem, rfl⟩

/-- Results without a failure are the events among them. -/
theorem map_ok_events {results : List (Except Error Event)} (h : ∀ e, .error e ∉ results) :
    (events results).map .ok = results := by
  induction results with
  | nil => rfl
  | cons result rest ih =>
    have hrest : ∀ e, .error e ∉ rest := fun e he => h e (List.mem_cons_of_mem _ he)
    cases result with
    | error e => exact absurd List.mem_cons_self (h e)
    | ok event => rw [events_ok, List.map_cons, ih hrest]

theorem current_readEvent {p : OpenPacket} {step : Outcome × StreamReader}
    (h : r.readEvent p = some step) : step.2.current = step.1.event? := by
  unfold readEvent at h
  split at h
  · cases h
    rfl
  · cases h
  · split at h
    · cases h
      rfl
    · cases h
      rfl

theorem current_readPackets (r : StreamReader) :
    r.readPackets.2.current = r.readPackets.1.event? := by
  fun_induction readPackets r with
  | case1 r hplace opened r' e he => rfl
  | case2 r hplace opened r' p hp record hrecord => rfl
  | case3 r hplace opened r' p hp hnone step hstep => exact current_readEvent hstep
  | case4 r hplace opened r' p hp hnone hread ih => exact ih
  | case5 r hplace => rfl

/-- The current event is the one that the last step has yielded. -/
theorem current_advance (r : StreamReader) : r.advance.2.current = r.advance.1.event? := by
  unfold advance
  split
  next step hstep =>
    obtain ⟨p, -, hread⟩ := Option.bind_eq_some_iff.1 hstep
    exact current_readEvent hread
  · exact current_readPackets r

theorem drain_of_end (h : r.advance = (.ok none, r')) : r.drain.1 = [] := by
  unfold drain
  split
  next h' => rfl
  next event r'' h' => cases h.symm.trans h'
  next e r'' h' => cases h.symm.trans h'

theorem drain_of_event (h : r.advance = (.ok (some event), r')) :
    r.drain.1 = .ok event :: r'.drain.1 := by
  generalize hrest : r'.drain = rest
  unfold drain
  split
  next r'' h' => cases h.symm.trans h'
  next event' r'' h' =>
    cases h.symm.trans h'
    rw [hrest]
  next e r'' h' => cases h.symm.trans h'

theorem drain_of_error (h : r.advance = (.error e, r')) : r.drain.1 = .error e :: r'.drain.1 := by
  generalize hrest : r'.drain = rest
  unfold drain
  split
  next r'' h' => cases h.symm.trans h'
  next event' r'' h' => cases h.symm.trans h'
  next e' r'' h' =>
    cases h.symm.trans h'
    rw [hrest]

/-- The event that a reader has been moved to, and those that it yields from then on. -/
def ahead (r : StreamReader) : List Event :=
  match r.current with
  | none => []
  | some event => event :: events r.drain.1

/-- Whether a reader meets no failure any more. -/
def Unfailing (r : StreamReader) : Prop := ∀ e, .error e ∉ r.drain.1

theorem ahead_of_none (h : r.current = none) : r.ahead = [] := by
  rw [ahead, h]

theorem ahead_of_some (h : r.current = some event) : r.ahead = event :: events r.drain.1 := by
  rw [ahead, h]

/-- A reader that has been moved on is ahead of all that was left, unless it has failed. -/
theorem ahead_advance (r : StreamReader) :
    r.advance.2.ahead = events r.drain.1 ∨
      ∃ e, r.advance.1 = .error e ∧ r.advance.2.ahead = [] := by
  have hcurrent := current_advance r
  rcases h : r.advance with ⟨out, r'⟩
  rw [h] at hcurrent
  cases out with
  | error e => exact .inr ⟨e, rfl, ahead_of_none hcurrent⟩
  | ok event? =>
    cases event? with
    | none => exact .inl (by rw [drain_of_end h, ahead_of_none hcurrent, events_nil])
    | some event => exact .inl (by rw [drain_of_event h, ahead_of_some hcurrent, events_ok])

theorem ahead_advance_isPrefix (r : StreamReader) : r.advance.2.ahead <+: events r.drain.1 := by
  rcases ahead_advance r with h | ⟨e, -, h⟩
  · exact ⟨[], by rw [List.append_nil, h]⟩
  · rw [h]
    exact List.nil_prefix

/-- A failure takes no event away. -/
theorem events_drain_of_error (h : r.advance = (.error e, r')) :
    events r.drain.1 = events r'.drain.1 := by
  rw [drain_of_error h, events_error]

/-- A reader that meets no failure is ahead of all that was left, and meets none later on
unless it has come to its end. -/
theorem Unfailing.advance (h : r.Unfailing) :
    r.advance.2.ahead = events r.drain.1 ∧
      (r.advance.2.current = none ∨ r.advance.2.Unfailing) := by
  have hcurrent := current_advance r
  rcases hadvance : r.advance with ⟨out, r'⟩
  rw [hadvance] at hcurrent
  cases out with
  | error e =>
    refine absurd ?_ (h e)
    rw [drain_of_error hadvance]
    exact List.mem_cons_self
  | ok event? =>
    cases event? with
    | none =>
      rw [drain_of_end hadvance]
      exact ⟨ahead_of_none hcurrent, .inl hcurrent⟩
    | some event =>
      rw [drain_of_event hadvance, events_ok]
      refine ⟨ahead_of_some hcurrent, .inr fun e he => h e ?_⟩
      rw [drain_of_event hadvance]
      exact List.mem_cons_of_mem _ he

/-- Takes a step, and one more if it fails. -/
def pass (r : StreamReader) : Outcome × StreamReader :=
  match r.advance with
  | (.error _, r') => r'.advance
  | result => result

theorem pass_of_error (h : r.advance = (.error e, r')) : r.pass = r'.advance := by
  rw [pass, h]

theorem pass_of_ok {event? : Option Event} (h : r.advance = (.ok event?, r')) :
    r.pass = (.ok event?, r') := by
  rw [pass, h]

/-- What one step keeps is kept by two. -/
theorem pass_induction {P : StreamReader → Prop} (hadvance : ∀ r, P r → P r.advance.2) (h : P r) :
    P r.pass.2 := by
  have hfirst := hadvance r h
  rcases hstep : r.advance with ⟨out, r'⟩
  rw [hstep] at hfirst
  cases out with
  | error e =>
    rw [pass_of_error hstep]
    exact hadvance r' hfirst
  | ok event? =>
    rw [pass_of_ok hstep]
    exact hfirst

theorem current_pass (r : StreamReader) : r.pass.2.current = r.pass.1.event? := by
  have hcurrent := current_advance r
  rcases hstep : r.advance with ⟨out, r'⟩
  rw [hstep] at hcurrent
  cases out with
  | error e =>
    rw [pass_of_error hstep]
    exact current_advance r'
  | ok event? =>
    rw [pass_of_ok hstep]
    exact hcurrent

/-- Passing on takes no event away unless both steps fail. -/
theorem ahead_pass (r : StreamReader) :
    r.pass.2.ahead = events r.drain.1 ∨
      (∃ e r' e', r.advance = (.error e, r') ∧ r'.advance.1 = .error e') ∧ r.pass.2.ahead = [] := by
  have hahead := ahead_advance r
  rcases hstep : r.advance with ⟨out, r'⟩
  rw [hstep] at hahead
  cases out with
  | error e =>
    rw [pass_of_error hstep, events_drain_of_error hstep]
    rcases ahead_advance r' with hsame | ⟨e', hfails, hnone⟩
    · exact .inl hsame
    · exact .inr ⟨⟨e, r', e', rfl, hfails⟩, hnone⟩
  | ok event? =>
    rw [pass_of_ok hstep]
    rcases hahead with hsame | ⟨e, hfails, -⟩
    · exact .inl hsame
    · cases hfails

theorem ahead_pass_isPrefix (r : StreamReader) : r.pass.2.ahead <+: events r.drain.1 := by
  rcases ahead_pass r with h | ⟨-, h⟩
  · exact h ▸ List.prefix_refl _
  · exact h ▸ List.nil_prefix

/-- Whether a reader never fails twice in a row any more. -/
def Recovering (r : StreamReader) : Prop :=
  r.drain.1.IsChain fun result next => result.isOk ∨ next.isOk

theorem Recovering.advance (h : r.Recovering) :
    r.advance.1 = .ok none ∨ r.advance.2.Recovering := by
  rcases hstep : r.advance with ⟨out, r'⟩
  unfold Recovering at h
  cases out with
  | error e =>
    rw [drain_of_error hstep] at h
    exact .inr h.tail
  | ok event? =>
    cases event? with
    | none => exact .inl rfl
    | some event =>
      rw [drain_of_event hstep] at h
      exact .inr h.tail

/-- The second of two steps does not fail. -/
theorem Recovering.of_error (h : r.Recovering) (hstep : r.advance = (.error e, r')) (e' : Error) :
    r'.advance.1 ≠ .error e' := by
  intro hfails
  unfold Recovering at h
  rw [drain_of_error hstep, drain_of_error (Prod.ext hfails rfl : r'.advance = (.error e', _))] at h
  have := (List.isChain_cons_cons.1 h).1
  simp [Except.isOk, Except.toBool] at this

/-- A reader that never fails twice in a row loses nothing when it passes on, and goes on like that
unless it has come to its end. -/
theorem Recovering.pass (h : r.Recovering) :
    r.pass.2.ahead = events r.drain.1 ∧ (r.pass.2.current = none ∨ r.pass.2.Recovering) := by
  constructor
  · rcases ahead_pass r with hsame | ⟨⟨e, r', e', hstep, hfails⟩, -⟩
    · exact hsame
    · exact absurd hfails (h.of_error hstep e')
  · rw [current_pass]
    have hnext := h.advance
    rcases hstep : r.advance with ⟨out, r'⟩
    rw [hstep] at hnext
    cases out with
    | error e =>
      rw [pass_of_error hstep]
      rcases hnext.resolve_left nofun |>.advance with hend | hlater
      · exact .inl (by rw [hend]; rfl)
      · exact .inr hlater
    | ok event? =>
      rw [pass_of_ok hstep]
      rcases hnext with hend | hlater
      · cases hend
        exact .inl rfl
      · exact .inr hlater

/-- A reader that meets no failure does not fail twice in a row. -/
theorem Unfailing.recovering (h : r.Unfailing) : r.Recovering := by
  have hok : ∀ result ∈ r.drain.1, result.isOk := by
    intro result hmem
    cases result with
    | error e => exact absurd hmem (h e)
    | ok event => rfl
  exact (List.pairwise_of_forall_mem_list fun result hmem _ _ => .inl (hok result hmem)).isChain

end CommonTrace.StreamReader
