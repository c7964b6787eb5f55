import CommonTrace.Proofs.Bits.Reading
import Mathlib.Algebra.BigOperators.Intervals
import Mathlib.Algebra.BigOperators.Ring.Finset
import Mathlib.Data.Int.ModEq

/-!
# Bit fields by the places of their bits

Every bit of a field has a place: the first one is the least significant one in little endian order
and the most significant one in big endian order. Whether a field is read bit by bit or, where it is
made of whole bytes, byte by byte, the number read is the sum of its bits by their places. A signed
field is the number of its range that differs from that sum by a multiple of the power of two.
-/
namespace CommonTrace

namespace Bits

variable {order : ByteOrder} {bytes : ByteArray} {position width first count : Nat}

theorem byteAt_lt (bytes : ByteArray) (i : Nat) : byteAt bytes i < 256 := by
  unfold byteAt
  split
  · exact UInt8.toNat_lt _
  · decide

theorem bit_lt (order : ByteOrder) (bytes : ByteArray) (position : Nat) :
    bit order bytes position < 2 := by
  cases order with
  | little => exact Nat.mod_lt _ (by decide)
  | big => exact Nat.mod_lt _ (by decide)

/-- The lowest bits of a number by their places. -/
theorem sum_bits (n width : Nat) :
    ∑ i ∈ Finset.range width, n / 2 ^ i % 2 * 2 ^ i = n % 2 ^ width := by
  induction width with
  | zero => simp [Nat.mod_one]
  | succ width ih => rw [Finset.sum_range_succ, ih, Nat.mod_pow_succ, Nat.mul_comm]

/-- Bytes are taken one after the other. -/
theorem slice_eq (bytes : ByteArray) (first count : Nat) (rest : List UInt8) :
    slice bytes first count rest =
      (List.range count).map (fun i => UInt8.ofNat (byteAt bytes (first + i))) ++ rest := by
  induction count generalizing rest with
  | zero => rfl
  | succ count ih =>
    rw [slice, ih, List.range_succ, List.map_append, List.append_assoc]
    rfl

theorem toNat_ofNat_byteAt (bytes : ByteArray) (i : Nat) :
    (UInt8.ofNat (byteAt bytes i)).toNat = byteAt bytes i :=
  UInt8.toNat_ofNat_of_lt' (byteAt_lt bytes i)

/-- The number that the bits of a field stand for by their places. -/
def placed (order : ByteOrder) (bytes : ByteArray) (position width : Nat) : Nat :=
  match order with
  | .little => ∑ i ∈ Finset.range width, bit .little bytes (position + i) * 2 ^ i
  | .big => ∑ i ∈ Finset.range width, bit .big bytes (position + i) * 2 ^ (width - 1 - i)

theorem placed_little_succ : placed .little bytes position (width + 1) =
    placed .little bytes position width + bit .little bytes (position + width) * 2 ^ width :=
  Finset.sum_range_succ _ _

/-- A further bit moves those before it by one place. -/
theorem placed_big_succ : placed .big bytes position (width + 1) =
    placed .big bytes position width * 2 + bit .big bytes (position + width) := by
  have hshift : ∀ i ∈ Finset.range width,
      bit .big bytes (position + i) * 2 ^ (width + 1 - 1 - i) =
        bit .big bytes (position + i) * 2 ^ (width - 1 - i) * 2 := by
    intro i hi
    have hi := Finset.mem_range.1 hi
    rw [Nat.mul_assoc, ← Nat.pow_succ]
    congr 2
    omega
  unfold placed
  dsimp only
  rw [Finset.sum_range_succ, Finset.sum_congr rfl hshift, ← Finset.sum_mul, Nat.add_sub_cancel,
    Nat.sub_self, Nat.pow_zero, Nat.mul_one]

theorem placed_lt (order : ByteOrder) (bytes : ByteArray) (position width : Nat) :
    placed order bytes position width < 2 ^ width := by
  induction width with
  | zero => cases order <;> exact Nat.one_pos
  | succ width ih =>
    have hbit := bit_lt order bytes (position + width)
    rw [Nat.pow_succ]
    cases order with
    | little =>
      have hle := Nat.mul_le_mul_right (2 ^ width) (Nat.le_of_lt_succ hbit)
      rw [placed_little_succ]
      omega
    | big =>
      rw [placed_big_succ]
      omega

/-- The bits of a field come before those behind it in little endian order. -/
theorem placed_little_add (v : Nat) :
    placed .little bytes position (width + v) = placed .little bytes position width +
      2 ^ width * placed .little bytes (position + width) v := by
  induction v with
  | zero => rfl
  | succ v ih =>
    rw [← Nat.add_assoc, placed_little_succ, ih, placed_little_succ, Nat.pow_add, Nat.mul_add,
      Nat.add_assoc, Nat.add_assoc, Nat.mul_left_comm]

/-- The bits of a field come after those behind it in big endian order. -/
theorem placed_big_add (v : Nat) : placed .big bytes position (width + v) =
    placed .big bytes position width * 2 ^ v + placed .big bytes (position + width) v := by
  induction v with
  | zero => simp [placed]
  | succ v ih =>
    rw [← Nat.add_assoc, placed_big_succ, ih, placed_big_succ, Nat.pow_succ, Nat.add_mul,
      Nat.mul_assoc, Nat.add_assoc, Nat.add_assoc]

/-- Eight bits from the start of a byte on are the byte. -/
theorem placed_byte (order : ByteOrder) (bytes : ByteArray) (i : Nat) :
    placed order bytes (8 * i) 8 = byteAt bytes i := by
  have hbyte : ∑ j ∈ Finset.range 8, byteAt bytes i / 2 ^ j % 2 * 2 ^ j = byteAt bytes i := by
    rw [sum_bits]
    exact Nat.mod_eq_of_lt (byteAt_lt bytes i)
  have hdiv {j : Nat} (hj : j < 8) : (8 * i + j) / 8 = i := by omega
  have hmod {j : Nat} (hj : j < 8) : (8 * i + j) % 8 = j := by omega
  cases order with
  | little =>
    rw [← hbyte]
    refine Finset.sum_congr rfl fun j hj => ?_
    have hj := Finset.mem_range.1 hj
    rw [bit, hdiv hj, hmod hj]
    rfl
  | big =>
    rw [← hbyte, ← Finset.sum_range_reflect]
    refine Finset.sum_congr rfl fun j hj => ?_
    have hj := Finset.mem_range.1 hj
    rw [bit, hdiv hj, hmod hj]
    rfl

/-- Reading bit by bit adds up the bits by their places. -/
theorem bitsValue_eq_placed (order : ByteOrder) (bytes : ByteArray) (position count : Nat) :
    bitsValue order bytes position count = placed order bytes position count := by
  induction count with
  | zero => cases order <;> rfl
  | succ count ih =>
    cases order with
    | little =>
      rw [bitsValue, ih, Nat.or_comm,
        ← Nat.shiftLeft_add_eq_or_of_lt (placed_lt .little bytes position count),
        placed_little_succ, Nat.shiftLeft_eq, Nat.add_comm]
    | big =>
      rw [bitsValue, ih, ← Nat.shiftLeft_add_eq_or_of_lt (bit_lt .big bytes (position + count)),
        placed_big_succ, Nat.shiftLeft_eq, Nat.pow_one]

/-- The first byte that is taken comes in front of the others. -/
theorem slice_succ (bytes : ByteArray) (first count : Nat) : slice bytes first (count + 1) [] =
    UInt8.ofNat (byteAt bytes first) :: slice bytes (first + 1) count [] := by
  rw [slice_eq, slice_eq, List.range_succ_eq_map, List.map_cons, List.map_map, List.cons_append]
  simp [Function.comp_def, Nat.add_assoc, Nat.add_comm 1]

theorem bytesValue_little_succ : bytesValue .little bytes first (count + 1) =
    byteAt bytes first + 2 ^ 8 * bytesValue .little bytes (first + 1) count := by
  unfold bytesValue
  dsimp only
  rw [slice_succ, List.foldr_cons, toNat_ofNat_byteAt,
    ← Nat.shiftLeft_add_eq_or_of_lt (byteAt_lt bytes first), Nat.shiftLeft_eq, Nat.add_comm,
    Nat.mul_comm]

theorem bytesValue_big_succ : bytesValue .big bytes first (count + 1) =
    bytesValue .big bytes first count * 2 ^ 8 + byteAt bytes (first + count) := by
  have hslice : slice bytes first (count + 1) [] =
      slice bytes first count [] ++ [UInt8.ofNat (byteAt bytes (first + count))] := by
    rw [slice_eq, slice_eq, List.range_succ, List.map_append, List.append_nil, List.append_nil]
    rfl
  unfold bytesValue
  dsimp only
  rw [hslice, List.foldl_append, List.foldl_cons, List.foldl_nil, toNat_ofNat_byteAt,
    ← Nat.shiftLeft_add_eq_or_of_lt (byteAt_lt bytes (first + count)), Nat.shiftLeft_eq]

/-- Reading byte by byte adds up the bits of the bytes by their places. -/
theorem bytesValue_eq_placed (order : ByteOrder) (bytes : ByteArray) (first count : Nat) :
    bytesValue order bytes first count = placed order bytes (8 * first) (8 * count) := by
  induction count generalizing first with
  | zero => cases order <;> rfl
  | succ count ih =>
    cases order with
    | little =>
      rw [bytesValue_little_succ, ih, show 8 * (count + 1) = 8 + 8 * count by omega,
        placed_little_add, placed_byte]
      rfl
    | big =>
      rw [bytesValue_big_succ, ih, Nat.mul_succ 8 count, placed_big_add,
        ← Nat.mul_add 8 first count, placed_byte]

/-- A field is the sum of its bits by their places, in whichever way it is read. -/
theorem field_eq_placed (order : ByteOrder) (bytes : ByteArray) (position width : Nat) :
    field order bytes position width = placed order bytes position width := by
  unfold field
  split
  next h =>
    rw [bytesValue_eq_placed, Nat.mul_div_cancel' (Nat.dvd_of_mod_eq_zero h.1),
      Nat.mul_div_cancel' (Nat.dvd_of_mod_eq_zero h.2)]
  next h => exact bitsValue_eq_placed order bytes position width

/-- The upper half of the values of a width is read as the numbers below zero. -/
theorem signed_eq {value : Nat} (hle : width ≤ 64) (h : value < 2 ^ width) :
    signed width value = if 2 * value < 2 ^ width then (value : Int) else value - 2 ^ width := by
  have hpow : 2 ^ width * 2 ^ (64 - width) = 2 ^ 64 := by
    rw [← Nat.pow_add, Nat.add_sub_cancel' hle]
  have hshift := Nat.two_pow_pos (64 - width)
  have hword : value * 2 ^ (64 - width) < 2 ^ 64 := by
    rw [← hpow]
    exact Nat.mul_lt_mul_of_pos_right h hshift
  have htoNat : (BitVec.ofNat 64 value <<< (64 - width)).toNat = value * 2 ^ (64 - width) := by
    have hvalue : value < 2 ^ 64 :=
      Nat.lt_of_lt_of_le h (Nat.pow_le_pow_right (by decide) hle)
    rw [BitVec.toNat_shiftLeft, BitVec.toNat_ofNat, Nat.mod_eq_of_lt hvalue, Nat.shiftLeft_eq,
      Nat.mod_eq_of_lt hword]
  have hhalf : 2 * (value * 2 ^ (64 - width)) < 2 ^ 64 ↔ 2 * value < 2 ^ width := by
    rw [← hpow, ← Nat.mul_assoc]
    exact Nat.mul_lt_mul_right hshift
  have hscale : ((2 ^ (64 - width) : Nat) : Int) ≠ 0 :=
    Int.natCast_ne_zero.2 (Nat.ne_of_gt hshift)
  unfold signed
  rw [BitVec.toInt_sshiftRight, BitVec.toInt_eq_toNat_cond, htoNat, Int.shiftRight_eq_div_pow]
  simp only [hhalf]
  split
  · rw [Nat.cast_mul, Int.mul_ediv_cancel _ hscale]
  · rw [← hpow, Nat.cast_mul, Nat.cast_mul, ← Int.sub_mul, Int.mul_ediv_cancel _ hscale,
      Nat.cast_pow]
    rfl

/-- A number is the reading of a value with a sign if it is in the range of the width and differs
from the value by a multiple of the power of two. -/
structure IsSigned (width value : Nat) (n : Int) : Prop where
  least_le : -2 ^ (width - 1) ≤ n
  lt_greatest : n < 2 ^ (width - 1)
  congruent : n ≡ value [ZMOD 2 ^ width]

/-- There is one reading with a sign. -/
theorem isSigned_iff {value : Nat} {n : Int} (hpos : 0 < width) (hle : width ≤ 64)
    (h : value < 2 ^ width) : IsSigned width value n ↔ n = signed width value := by
  have hhalf : (2 : Int) ^ width = 2 * 2 ^ (width - 1) := by
    rw [← pow_succ', Nat.sub_add_cancel hpos]
  have hvalue : (value : Int) < 2 * 2 ^ (width - 1) := by
    rw [← hhalf]
    exact_mod_cast h
  have hlt : 2 * value < 2 ^ width ↔ (value : Int) < 2 ^ (width - 1) := by
    rw [← Int.ofNat_lt]
    push_cast
    omega
  have hsigned : IsSigned width value (signed width value) := by
    rw [signed_eq hle h]
    split
    next hlower => exact ⟨by omega, hlt.1 hlower, rfl⟩
    next hupper =>
      have hge := Int.not_lt.1 (mt hlt.2 hupper)
      exact ⟨by omega, by omega, Int.sub_modulus_modEq_iff.2 rfl⟩
  constructor
  · intro hn
    -- both are in a range that is no longer than the power of two
    have hdvd := (hn.congruent.trans hsigned.congruent.symm).dvd
    have hsmall : |signed width value - n| < 2 ^ width := by
      have := hn.least_le
      have := hn.lt_greatest
      have := hsigned.least_le
      have := hsigned.lt_greatest
      rw [abs_lt]
      omega
    have hzero := Int.eq_zero_of_abs_lt_dvd hdvd hsmall
    omega
  · rintro rfl
    exact hsigned

end Bits

namespace Cursor

open Bits

/-- A field of 1 to 64 bits that does not pass the limit is read as the sum of its bits by their
places, be it bit by bit or, where it is made of whole bytes, byte by byte; with a sign, it is read
as the one number of its range that belongs to this sum. The cursor is moved past the field. -/
theorem read_eq_placed {c : Cursor} {width : Nat} (order : ByteOrder) (hpos : 0 < width)
    (hle : width ≤ 64) (hfits : c.position + width ≤ c.limit) :
    ∃ value n next,
      value = placed order c.bytes c.position width ∧ value < 2 ^ width ∧
      (∀ m, IsSigned width value m ↔ m = n) ∧
      c.readUnsigned width order = .ok (value, next) ∧
      c.readSigned width order = .ok (n, next) ∧
      (next.bytes = c.bytes ∧ next.limit = c.limit ∧ next.position = c.position + width) ∧
      bitsValue order c.bytes c.position width = value ∧
      (c.position % 8 = 0 → width % 8 = 0 →
        bytesValue order c.bytes (c.position / 8) (width / 8) = value) := by
  obtain ⟨next, hadvance, hposition⟩ := exists_advance hfits
  obtain ⟨hbytes, hlimit, -, -⟩ := advance_eq_ok hadvance
  have hlt := placed_lt order c.bytes c.position width
  have hunsigned : c.readUnsigned width order =
      .ok (placed order c.bytes c.position width, next) := by
    unfold Cursor.readUnsigned
    rw [if_neg (by omega), hadvance, ← field_eq_placed]
    rfl
  refine ⟨_, signed width (placed order c.bytes c.position width), next, rfl, hlt,
    fun m => isSigned_iff hpos hle hlt, hunsigned, ?_, ⟨hbytes, hlimit, hposition⟩,
    bitsValue_eq_placed order c.bytes c.position width, fun hfirst hwidth => ?_⟩
  · unfold Cursor.readSigned
    rw [hunsigned]
    rfl
  · rw [bytesValue_eq_placed, Nat.mul_div_cancel' (Nat.dvd_of_mod_eq_zero hfirst),
      Nat.mul_div_cancel' (Nat.dvd_of_mod_eq_zero hwidth)]

/-- A cursor at the fifth bit of three bytes, the last two bits of which may not be read. -/
def withinByte : Cursor := ⟨⟨#[0xAC, 0x93, 0x5E]⟩, 22, 4, by decide, by decide⟩

theorem read_eq_placed_withinByte : withinByte.position + 11 ≤ withinByte.limit ∧
    ∃ next, withinByte.readUnsigned 11 .big = .ok (0b11001001001, next) ∧
      withinByte.readSigned 11 .big = .ok (-439, next) ∧ next.position = 15 := by
  have hfits : withinByte.position + 11 ≤ withinByte.limit := by decide
  obtain ⟨value, n, next, hvalue, -, hsigned, hunsigned, hread, ⟨-, -, hposition⟩, -⟩ :=
    read_eq_placed .big (by decide) (by decide) hfits
  have hplaced : placed .big withinByte.bytes withinByte.position 11 = 0b11001001001 := by
    decide +kernel
  rw [hplaced] at hvalue
  subst hvalue
  obtain rfl := (hsigned (-439)).1 ⟨by decide, by decide, by decide⟩
  exact ⟨hfits, next, hunsigned, hread, hposition⟩

end Cursor

end CommonTrace
