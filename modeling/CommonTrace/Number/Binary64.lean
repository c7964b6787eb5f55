/-!
# Binary floating point values

A floating point field is kept as its 64-bit interchange pattern: it is moved and
shown, never computed with. A 32-bit pattern is widened, which loses nothing.
A finite nonzero value is `significand * 2 ^ scale / 2 ^ 1074` up to its sign.
-/
namespace CommonTrace

/-- A floating point value, by its IEEE 754 binary64 pattern. -/
structure Binary64 where
  bits : UInt64
  deriving DecidableEq, Repr, Inhabited

namespace Binary64

/-- Whether the sign bit is set. -/
def isNegative (x : Binary64) : Bool := Nat.pow 2 63 ≤ x.bits.toNat

/-- The biased exponent. -/
def exponentField (x : Binary64) : Nat := x.bits.toNat / Nat.pow 2 52 % Nat.pow 2 11

/-- The stored bits of the significand. -/
def fractionField (x : Binary64) : Nat := x.bits.toNat % Nat.pow 2 52

/-- Whether the pattern stands for no number. -/
def isNaN (x : Binary64) : Bool := x.exponentField == 2047 && x.fractionField != 0

/-- Whether the pattern stands for an infinity. -/
def isInfinite (x : Binary64) : Bool := x.exponentField == 2047 && x.fractionField == 0

/-- Whether the pattern stands for a zero of either sign. -/
def isZero (x : Binary64) : Bool := x.exponentField == 0 && x.fractionField == 0

/-- The significand as a whole number, its leading bit included. -/
def significand (x : Binary64) : Nat :=
  if x.exponentField = 0 then x.fractionField else x.fractionField + Nat.pow 2 52

/-- The power of two that multiplies the significand, counted from the least one. -/
def scale (x : Binary64) : Nat := x.exponentField - 1

/-- The pattern with the given sign, biased exponent and stored significand bits. -/
def ofFields (negative : Bool) (exponent fraction : Nat) : Binary64 :=
  ⟨UInt64.ofNat ((if negative then Nat.pow 2 63 else 0) + exponent * Nat.pow 2 52 + fraction)⟩

/-- Widens a binary32 pattern. A subnormal becomes normal: its leading bit moves to
the implicit place and the exponent says where it was. -/
def ofBinary32 (pattern : Nat) : Binary64 :=
  let negative := pattern / Nat.pow 2 31 % 2 = 1
  let exponent := pattern / Nat.pow 2 23 % Nat.pow 2 8
  let fraction := pattern % Nat.pow 2 23
  if exponent = 255 then ofFields negative 2047 (fraction * Nat.pow 2 29)
  else if exponent ≠ 0 then ofFields negative (exponent + 896) (fraction * Nat.pow 2 29)
  else if fraction = 0 then ofFields negative 0 0
  else
    let top := fraction.log2
    ofFields negative (top + 874) ((fraction - Nat.pow 2 top) * Nat.pow 2 (52 - top))

end Binary64

end CommonTrace
