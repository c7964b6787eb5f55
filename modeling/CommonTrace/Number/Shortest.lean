import CommonTrace.Number.Binary64

/-!
# The shortest decimal that reads back

A finite value is shown with the fewest decimal digits that no other value shares:
of the decimals that round to the value, one on the coarsest grid of powers of ten,
and on that grid the nearest, a tie going away from zero. The text is positional,
without an exponent and without a point when there is no fraction.

Everything is exact arithmetic on natural numbers. The decimals that round to a
value reach half way to its neighbours, the ends included when the significand is
even; in units of a quarter of the last place they reach from two below (one below
if the neighbour there is nearer, as it is under a power of two) to two above.
-/
namespace CommonTrace.Binary64

/-- The point of the grid of multiples of `10 ^ grid` at which the value is shown, as
a multiple, if the grid has a point that rounds to the value. -/
def nearestOnGrid? (x : Binary64) (grid : Int) : Option Nat :=
  let unit := Nat.pow 2 x.scale * Nat.pow 10 (-grid).toNat
  let step := Nat.pow 2 1076 * Nat.pow 10 grid.toNat
  let value := 4 * x.significand * unit
  let below := if x.significand = Nat.pow 2 52 ∧ 0 < x.scale then 1 else 2
  let low := (4 * x.significand - below) * unit
  let high := (4 * x.significand + 2) * unit
  let n := value / step
  let closed := x.significand % 2 = 0
  let down := low < n * step ∨ (closed ∧ low = n * step)
  let up := (n + 1) * step < high ∨ (closed ∧ (n + 1) * step = high)
  if down then
    if up ∧ step ≤ 2 * (value % step) then some (n + 1) else some n
  else if up then some (n + 1)
  else none

/-- An exponent of ten above the value. -/
def topGrid (x : Binary64) : Int :=
  Int.fdiv (((x.significand.log2 + x.scale : Nat) - 1074) * 30103) 100000 + 2

/-- The digits shown for a finite nonzero value, and the power of ten that multiplies
them. Seventeen digits always suffice; the value itself is a multiple of `10 ^ -1074`. -/
def shortest (x : Binary64) : Nat × Int :=
  let grids := (List.range 25).map fun (i : Nat) => x.topGrid - (i : Int)
  (grids.findSome? fun grid => (x.nearestOnGrid? grid).map fun n => (n, grid)).getD
    (x.significand * Nat.pow 2 x.scale * Nat.pow 5 1074, -1074)

/-- A whole number times a power of ten in positional notation. -/
def positional (digits : Nat) (exponent : Int) : String :=
  let shown := Nat.toDigits 10 digits
  let places := (-exponent).toNat
  if places = 0 then String.ofList (shown ++ List.replicate exponent.toNat '0')
  else if places < shown.length then
    String.ofList (shown.take (shown.length - places) ++
      '.' :: shown.drop (shown.length - places))
  else
    String.ofList ('0' :: '.' :: List.replicate (places - shown.length) '0' ++ shown)

/-- The text of a floating point value. -/
def text (x : Binary64) : String :=
  if x.isNaN then "NaN"
  else
    let sign := if x.isNegative then "-" else ""
    if x.isInfinite then sign ++ "inf"
    else if x.isZero then sign ++ "0"
    else
      let (digits, exponent) := x.shortest
      sign ++ positional digits exponent

end CommonTrace.Binary64
