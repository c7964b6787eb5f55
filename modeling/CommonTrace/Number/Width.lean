/-!
# Widths of whole numbers

A number of `bits` bits lies below the power of two; one with a sign lies within half of
it on either side of zero. Each reading yields the number it was given, if it fits.
-/
namespace CommonTrace.Width

/-- The number, if it fits into `bits` bits without a sign. -/
def unsigned? (bits : Nat) (n : Int) : Option Nat :=
  if 0 ≤ n ∧ n < Nat.pow 2 bits then some n.toNat else none

/-- The number, if it fits into `bits` bits with a sign. -/
def signed? (bits : Nat) (n : Int) : Option Int :=
  if -Nat.pow 2 (bits - 1) ≤ n ∧ n < Nat.pow 2 (bits - 1) then some n else none

theorem unsigned?_eq_some {bits : Nat} {n : Int} {m : Nat} :
    unsigned? bits n = some m ↔ n = m ∧ m < Nat.pow 2 bits := by
  unfold unsigned?
  split
  next h =>
    rw [Option.some.injEq]
    omega
  next h =>
    simp only [reduceCtorEq, false_iff]
    omega

end CommonTrace.Width
