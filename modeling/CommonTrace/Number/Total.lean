/-!
# Totals

The sum of a list of counts, and what is left of it in a number of 64 bits, in which sums wrap.
-/
namespace CommonTrace

/-- The sum of counts. -/
def total : List Nat → Nat
  | [] => 0
  | n :: counts => n + total counts

@[simp] theorem total_nil : total [] = 0 := rfl

@[simp] theorem total_cons (n : Nat) (counts : List Nat) :
    total (n :: counts) = n + total counts := rfl

@[simp] theorem total_append (a b : List Nat) : total (a ++ b) = total a + total b := by
  induction a with
  | nil => simp
  | cons n a ih => simp [ih, Nat.add_assoc]

theorem le_total {n : Nat} {counts : List Nat} (h : n ∈ counts) : n ≤ total counts := by
  induction counts with
  | nil => cases h
  | cons m counts ih =>
    rw [total_cons]
    rcases List.mem_cons.1 h with rfl | h
    · exact Nat.le_add_right _ _
    · exact Nat.le_trans (ih h) (Nat.le_add_left _ _)

/-- What is left of a sum in a number of 64 bits. -/
def wrap (sum : Nat) : Nat := sum % UInt64.size

theorem wrap_of_lt {n : Nat} (h : n < UInt64.size) : wrap n = n := Nat.mod_eq_of_lt h

/-- It makes no difference whether the numbers of a sum have wrapped before. -/
theorem wrap_total_map_wrap (counts : List Nat) :
    wrap (total (counts.map wrap)) = wrap (total counts) := by
  induction counts with
  | nil => rfl
  | cons n counts ih =>
    unfold wrap at ih ⊢
    rw [List.map_cons, total_cons, total_cons, Nat.add_mod, ih, Nat.mod_mod, ← Nat.add_mod]

/-- Numbers do not wrap where their sum does not. -/
theorem map_wrap_of_lt {counts : List Nat} (h : total counts < UInt64.size) :
    counts.map wrap = counts := by
  have hall : counts.map wrap = counts.map id :=
    List.map_congr_left fun n hn => wrap_of_lt (Nat.lt_of_le_of_lt (le_total hn) h)
  rw [hall, List.map_id]

end CommonTrace
