import CommonTrace.Proofs.Packet.Search
import CommonTrace.Proofs.Stream.Ahead
import CommonTrace.Proofs.Stream.Reachable

/-!
# What moving to a time leaves

What a reader yields next is determined by what is left to be read of its file, failures
included. Moving it to a time leaves what the packets from the one that the search finds on
yield on their own, without the events before that time up to the first other result. So it
makes no difference how the reader was moved before, nor what it has met.
-/
namespace CommonTrace.StreamReader

variable {f : StreamFile} {r : StreamReader} {rest : List (Except Error Event)}
  {step : Outcome × StreamReader} {timestamp : Nat}

/-- What a step yields where some results are left. -/
def firstOf : List (Except Error Event) → Outcome
  | [] => .ok none
  | result :: _ => result.map some

theorem firstOf_map_ok (left : List Event) : firstOf (left.map .ok) = .ok left.head? := by
  cases left <;> rfl

theorem Yields.eq_firstOf (h : Yields f step rest) :
    step.1 = firstOf rest ∧ Pending f step.2 rest.tail := by
  obtain ⟨out, r'⟩ := step
  cases out with
  | error e =>
    obtain ⟨rest', rfl, hpending⟩ := h
    exact ⟨rfl, hpending⟩
  | ok event? =>
    cases event? with
    | none =>
      obtain ⟨rfl, hpending⟩ := h
      exact ⟨rfl, hpending⟩
    | some event =>
      obtain ⟨rest', rfl, hpending⟩ := h
      exact ⟨rfl, hpending⟩

/-- A step yields the first of what is left, and leaves the others. -/
theorem advance_eq_firstOf (hf : f.Indexed) (h : Pending f r rest) :
    r.advance.1 = firstOf rest ∧ Pending f r.advance.2 rest.tail :=
  (advance_spec hf h).eq_firstOf

/-- Whether a result is an event before a time. -/
def isBefore (timestamp : Nat) : Except Error Event → Bool
  | .ok event => event.timestamp < timestamp
  | .error _ => false

theorem dropWhile_map_ok (timestamp : Nat) (left : List Event) :
    (left.map .ok).dropWhile (isBefore timestamp) =
      (left.dropWhile fun event => event.timestamp < timestamp).map .ok :=
  List.dropWhile_map

/-- Skipping leaves out the events before a time, up to the first other result. -/
theorem skipBefore_eq_firstOf (hf : f.Indexed) (h : Pending f r rest) :
    (r.skipBefore timestamp).1 = firstOf (rest.dropWhile (isBefore timestamp)) ∧
      Pending f (r.skipBefore timestamp).2 (rest.dropWhile (isBefore timestamp)).tail := by
  fun_induction skipBefore r timestamp generalizing rest with
  | case1 r event r' hstep hlt hbefore ih =>
    have hspec := advance_spec hf h
    rw [hstep] at hspec
    obtain ⟨rest', rfl, hpending⟩ := hspec
    rw [List.dropWhile_cons_of_pos (by simpa [isBefore] using hbefore)]
    exact ih hpending
  | case2 r event r' hstep hlt hbefore =>
    have hspec := advance_spec hf h
    rw [hstep] at hspec
    obtain ⟨rest', rfl, hpending⟩ := hspec
    rw [List.dropWhile_cons_of_neg (by simpa [isBefore] using hbefore)]
    exact ⟨rfl, hpending⟩
  | case3 r hother =>
    have hspec := advance_eq_firstOf hf h
    cases rest with
    | nil => exact hspec
    | cons result rest =>
      cases result with
      | error e => exact hspec
      | ok event => exact (hother event r.advance.2 (Prod.ext hspec.1 rfl)).elim

/-- What is left of a file for a reader that is moved to a time. -/
def resultsSince (f : StreamFile) (timestamp : Nat) : List (Except Error Event) :=
  (f.resultsFrom (f.index.found timestamp)).dropWhile (isBefore timestamp)

/-- Moving to a time yields the first of what is left from that time on, and leaves the
others. -/
theorem seek_eq_firstOf (hf : f.Indexed) (h : Ready f r) (timestamp : Nat) :
    (r.seek timestamp).1 = firstOf (resultsSince f timestamp) ∧
      Pending f (r.seek timestamp).2 (resultsSince f timestamp).tail := by
  obtain ⟨rfl, hbase, hrestores⟩ := h
  have hpending : Pending r.file
      { r with packet := none, nextPacket := r.file.index.found timestamp, current := none }
      (r.file.resultsFrom (r.file.index.found timestamp)) := .between ⟨rfl, hbase, hrestores⟩ rfl
  exact skipBefore_eq_firstOf hf hpending

/-- The current event of a reader that has skipped events is the one that was not skipped. -/
theorem current_skipBefore (r : StreamReader) (timestamp : Nat) :
    (r.skipBefore timestamp).2.current = (r.skipBefore timestamp).1.event? := by
  obtain ⟨r', -, heq⟩ : ∃ r' : StreamReader, True ∧ r.skipBefore timestamp = r'.advance :=
    exists_advance_of_skipBefore (P := fun _ => True) (fun _ _ => trivial) trivial
  rw [heq]
  exact current_advance r'

theorem current_seek (r : StreamReader) (timestamp : Nat) :
    (r.seek timestamp).2.current = (r.seek timestamp).1.event? :=
  current_skipBefore _ timestamp

end CommonTrace.StreamReader
