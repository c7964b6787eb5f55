/-!
# Turns in a merge

The streams that wait to be merged stand in a queue, each with the time of its next
event. The turn is with the earliest, and among those of one time with the stream
that comes first.
-/
namespace CommonTrace

/-- A stream that waits to be merged: the time of its next event and its place among
the streams. -/
structure Turn where
  time : Nat
  place : Nat
  deriving DecidableEq, Repr

namespace Turn

instance : LE Turn := ⟨fun a b => a.time < b.time ∨ a.time = b.time ∧ a.place ≤ b.place⟩

theorem le_iff {a b : Turn} : a ≤ b ↔ a.time < b.time ∨ a.time = b.time ∧ a.place ≤ b.place :=
  Iff.rfl

instance (a b : Turn) : Decidable (a ≤ b) := decidable_of_iff _ le_iff.symm

theorem le_total (a b : Turn) : a ≤ b ∨ b ≤ a := by
  simp only [le_iff]
  omega

theorem le_trans {a b c : Turn} (hab : a ≤ b) (hbc : b ≤ c) : a ≤ c := by
  simp only [le_iff] at *
  omega

/-- Puts a turn into a list of turns, before the first that it does not come after. -/
def insert (turn : Turn) : List Turn → List Turn
  | [] => [turn]
  | other :: rest => if turn ≤ other then turn :: other :: rest else other :: insert turn rest

theorem perm_insert (turn : Turn) (turns : List Turn) :
    (insert turn turns).Perm (turn :: turns) := by
  induction turns with
  | nil => exact .refl _
  | cons other rest ih =>
    rw [insert]
    split
    · exact .refl _
    · exact (ih.cons other).trans (.swap turn other rest)

theorem sorted_insert (turn : Turn) {turns : List Turn} (h : turns.Pairwise (· ≤ ·)) :
    (insert turn turns).Pairwise (· ≤ ·) := by
  induction turns with
  | nil => simp [insert]
  | cons other rest ih =>
    obtain ⟨hother, hrest⟩ := List.pairwise_cons.1 h
    rw [insert]
    split
    next hle =>
      refine List.pairwise_cons.2 ⟨fun t ht => ?_, h⟩
      rcases List.mem_cons.1 ht with rfl | ht
      · exact hle
      · exact le_trans hle (hother t ht)
    next hlt =>
      refine List.pairwise_cons.2 ⟨fun t ht => ?_, ih hrest⟩
      rcases List.mem_cons.1 ((perm_insert turn rest).mem_iff.1 ht) with rfl | ht
      · exact (le_total other t).resolve_right hlt
      · exact hother t ht

end Turn

/-- The streams that wait to be merged, in the order of their turns. -/
structure MergeQueue where
  turns : List Turn := []
  sorted : turns.Pairwise (· ≤ ·) := by exact .nil

namespace MergeQueue

/-- Whether no stream waits. -/
def isEmpty (q : MergeQueue) : Bool := q.turns.isEmpty

/-- The turn that comes first. -/
def peek? (q : MergeQueue) : Option Turn := q.turns.head?

/-- Lets a stream wait. -/
def push (q : MergeQueue) (turn : Turn) : MergeQueue :=
  ⟨turn.insert q.turns, Turn.sorted_insert turn q.sorted⟩

/-- The turn that comes first, and the others. -/
def pop? : MergeQueue → Option (Turn × MergeQueue)
  | ⟨[], _⟩ => none
  | ⟨turn :: rest, h⟩ => some (turn, ⟨rest, (List.pairwise_cons.1 h).2⟩)

theorem perm_push (q : MergeQueue) (turn : Turn) : (q.push turn).turns.Perm (turn :: q.turns) :=
  Turn.perm_insert turn q.turns

@[simp] theorem length_push (q : MergeQueue) (turn : Turn) :
    (q.push turn).turns.length = q.turns.length + 1 :=
  (q.perm_push turn).length_eq

theorem pop?_eq_some {q rest : MergeQueue} {turn : Turn} :
    q.pop? = some (turn, rest) ↔ q.turns = turn :: rest.turns := by
  obtain ⟨turns, h⟩ := q
  obtain ⟨others, h'⟩ := rest
  cases turns <;> simp [pop?]

theorem pop?_eq_none {q : MergeQueue} : q.pop? = none ↔ q.turns = [] := by
  obtain ⟨turns, h⟩ := q
  cases turns <;> simp [pop?]

theorem peek?_eq_some {q : MergeQueue} {turn : Turn} :
    q.peek? = some turn ↔ ∃ rest, q.pop? = some (turn, rest) := by
  obtain ⟨turns, h⟩ := q
  cases turns <;> simp [peek?, pop?]

theorem peek?_eq_none {q : MergeQueue} : q.peek? = none ↔ q.turns = [] := List.head?_eq_none_iff

end MergeQueue

end CommonTrace
