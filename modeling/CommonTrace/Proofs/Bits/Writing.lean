import CommonTrace.Proofs.Bits.Positional
import CommonTrace.Proofs.Text.Lossy
import Mathlib.Algebra.Group.Nat.Defs

/-!
# Reading what was written

What a cursor reads is decided by the bytes ahead of it, of which the first may have been read in
part. A number that was written with its least significant byte first is read back from them, a text
that was written with a zero byte behind it is read back, and what was written next is ahead then.
-/
namespace CommonTrace

namespace Bits

/-- The number formed by bytes, the least significant one first. -/
def little : List UInt8 → Nat
  | [] => 0
  | byte :: rest => byte.toNat + 256 * little rest

/-- A number in some bytes, the least significant one first. -/
def word : Nat → Nat → List UInt8
  | 0, _ => []
  | count + 1, value => UInt8.ofNat value :: word count (value / 256)

@[simp] theorem length_word (count value : Nat) : (word count value).length = count := by
  induction count generalizing value with
  | zero => rfl
  | succ count ih => rw [word, List.length_cons, ih]

theorem little_word (count value : Nat) : little (word count value) = value % 256 ^ count := by
  induction count generalizing value with
  | zero => rw [Nat.pow_zero, Nat.mod_one, word, little]
  | succ count ih =>
    have hbyte : (UInt8.ofNat value).toNat = value % 256 := UInt8.toNat_ofNat'
    rw [word, little, ih, hbyte, Nat.pow_succ', Nat.mod_mul]

theorem little_append (bytes rest : List UInt8) :
    little (bytes ++ rest) = little bytes + 256 ^ bytes.length * little rest := by
  induction bytes with
  | nil => simp [little]
  | cons byte bytes ih =>
    rw [List.cons_append, little, little, ih, List.length_cons, Nat.pow_succ', Nat.mul_add,
      Nat.mul_assoc, Nat.add_assoc]

/-- The bits of bytes are those of the number that they form. -/
theorem little_bit {bytes : List UInt8} {i j : Nat} (hi : i < bytes.length) (hj : j < 8) :
    little bytes / 2 ^ (8 * i + j) % 2 = bytes[i].toNat / 2 ^ j % 2 := by
  induction bytes generalizing i with
  | nil => cases hi
  | cons byte bytes ih =>
    cases i with
    | zero =>
      have hpow : 256 = 2 ^ j * (2 * 2 ^ (7 - j)) := by
        rw [← Nat.pow_succ', ← Nat.pow_add, show 256 = 2 ^ 8 from rfl]
        congr 1
        omega
      rw [little, hpow, Nat.mul_zero, Nat.zero_add, Nat.mul_assoc,
        Nat.add_mul_div_left _ _ (Nat.two_pow_pos j), Nat.mul_assoc, Nat.add_mul_mod_self_left]
      rfl
    | succ i =>
      have hrest : little (byte :: bytes) / 2 ^ 8 = little bytes := by
        have hbyte := byte.toNat_lt
        rw [little]
        omega
      rw [show 8 * (i + 1) + j = 8 + (8 * i + j) by omega, Nat.pow_add, ← Nat.div_div_eq_div_mul,
        hrest]
      exact ih (Nat.lt_of_succ_lt_succ hi)

end Bits

namespace Cursor

open Bits

variable {c : Cursor} {bytes rest : List UInt8}

/-- The bytes from the one that a cursor is in up to its limit. -/
structure Ahead (c : Cursor) (bytes : List UInt8) : Prop where
  limit : c.limit = 8 * (c.position / 8 + bytes.length)
  byte : ∀ i (h : i < bytes.length), byteAt c.bytes (c.position / 8 + i) = bytes[i].toNat

namespace Ahead

/-- A field of the bytes ahead is cut out of the number that they form. -/
theorem field (h : c.Ahead bytes) {width : Nat}
    (hfits : c.position % 8 + width ≤ 8 * bytes.length) :
    Bits.field .little c.bytes c.position width =
      little bytes / 2 ^ (c.position % 8) % 2 ^ width := by
  have hbit : ∀ i ∈ Finset.range width, bit .little c.bytes (c.position + i) * 2 ^ i =
      little bytes / 2 ^ (c.position % 8) / 2 ^ i % 2 * 2 ^ i := by
    intro i hi
    have hi := Finset.mem_range.1 hi
    have hmod : (c.position + i) % 8 = (c.position % 8 + i) % 8 := by omega
    have hdiv : (c.position + i) / 8 = c.position / 8 + (c.position % 8 + i) / 8 := by omega
    have hplace : c.position % 8 + i = 8 * ((c.position % 8 + i) / 8) + (c.position % 8 + i) % 8 :=
      (Nat.div_add_mod _ 8).symm
    rw [Nat.div_div_eq_div_mul, ← Nat.pow_add, hplace,
      little_bit (by omega) (Nat.mod_lt _ (by decide)), bit, hmod, hdiv, h.byte _ (by omega)]
    rfl
  rw [field_eq_placed, ← sum_bits]
  exact Finset.sum_congr rfl hbit

/-- What is ahead after some bits. -/
theorem advance (h : c.Ahead bytes) (width : Nat)
    (hfits : c.position % 8 + width ≤ 8 * bytes.length) :
    ∃ c', c.advance width = .ok c' ∧ c'.position = c.position + width ∧
      c'.Ahead (bytes.drop ((c.position % 8 + width) / 8)) := by
  have hlimit := h.limit
  obtain ⟨c', hadvance, hposition⟩ := @exists_advance c width (by omega)
  obtain ⟨hbytes, hlimit', -, -⟩ := advance_eq_ok hadvance
  have hfirst : c'.position / 8 = c.position / 8 + (c.position % 8 + width) / 8 := by omega
  refine ⟨c', hadvance, hposition, ?_, fun i hi => ?_⟩
  · rw [hlimit', hlimit, hfirst, List.length_drop]
    omega
  · rw [List.length_drop] at hi
    rw [hbytes, hfirst, List.getElem_drop, Nat.add_assoc]
    exact h.byte _ (by omega)

/-- Some bits of the bytes ahead are read as the number that they form. -/
theorem readUnsigned (h : c.Ahead bytes) (width : Nat) (hpos : 0 < width) (hle : width ≤ 64)
    (hfits : c.position % 8 + width ≤ 8 * bytes.length) :
    ∃ c', c.readUnsigned width .little =
        .ok (little bytes / 2 ^ (c.position % 8) % 2 ^ width, c') ∧
      c'.position = c.position + width ∧
      c'.Ahead (bytes.drop ((c.position % 8 + width) / 8)) := by
  obtain ⟨c', hadvance, hposition, hahead⟩ := h.advance width hfits
  refine ⟨c', ?_, hposition, hahead⟩
  unfold Cursor.readUnsigned
  rw [if_neg (by omega), hadvance, ← h.field hfits]
  rfl

/-- A number is read back from the bytes that it was written in, if they are enough. -/
theorem readWord {count value : Nat} (h : c.Ahead (word count value ++ rest))
    (haligned : c.position % 8 = 0) (hpos : 0 < count) (hle : count ≤ 8) :
    ∃ c', c.readUnsigned (8 * count) .little = .ok (value % 256 ^ count, c') ∧
      c'.position = c.position + 8 * count ∧ c'.Ahead rest := by
  have hpow : 256 ^ count = 2 ^ (8 * count) := by rw [Nat.pow_mul]
  have hfits : c.position % 8 + 8 * count ≤ 8 * (word count value ++ rest).length := by
    rw [List.length_append, length_word]
    omega
  obtain ⟨c', hread, hposition, hahead⟩ := h.readUnsigned (8 * count) (by omega) (by omega) hfits
  have hvalue : little (word count value ++ rest) % 2 ^ (8 * count) = value % 256 ^ count := by
    rw [little_append, length_word, little_word, ← hpow, Nat.add_mul_mod_self_left, Nat.mod_mod]
  rw [haligned, Nat.pow_zero, Nat.div_one, hvalue] at hread
  refine ⟨c', hread, hposition, ?_⟩
  have hcount : (c.position % 8 + 8 * count) / 8 = (word count value).length := by
    rw [length_word]
    omega
  rwa [hcount, List.drop_left] at hahead

theorem slice (h : c.Ahead bytes) {count : Nat} (hle : count ≤ bytes.length) (after : List UInt8) :
    Bits.slice c.bytes (c.position / 8) count after = bytes.take count ++ after := by
  induction count generalizing after with
  | zero => rfl
  | succ count ih =>
    rw [Bits.slice, ih (by omega), h.byte count (by omega), UInt8.ofNat_toNat,
      List.take_succ_eq_append_getElem (by omega), List.append_assoc]
    rfl

/-- A text is read back from the bytes that it was written in with a zero byte behind them. -/
theorem readText {text : String} (h : c.Ahead (Text.utf8 text ++ 0 :: rest))
    (haligned : c.position % 8 = 0) (hnul : '\x00' ∉ text.toList) :
    ∃ c', c.readString = .ok (text, c') ∧
      c'.position = c.position + 8 * ((Text.utf8 text).length + 1) ∧ c'.Ahead rest := by
  have hpadding : padding c.position 8 = 0 := by
    unfold padding
    omega
  have hlength : (Text.utf8 text ++ 0 :: rest).length =
      (Text.utf8 text).length + 1 + rest.length := by
    simp
    omega
  have hends : c.EndsAt (c.position / 8 + (Text.utf8 text).length) := by
    refine ⟨by omega, by rw [h.limit]; omega, ?_, fun i hle hlt hzero => ?_⟩
    · rw [h.byte _ (by omega), List.getElem_append_right (Nat.le_refl _)]
      simp
    · obtain ⟨j, rfl⟩ : ∃ j, i = c.position / 8 + j := ⟨i - c.position / 8, by omega⟩
      have hj : j < (Text.utf8 text).length := by omega
      rw [h.byte j (by omega), List.getElem_append_left hj] at hzero
      exact Text.ne_zero_of_mem_utf8 hnul (List.getElem_mem hj) (UInt8.toNat_inj.1 hzero)
  obtain ⟨c', hread, hposition⟩ := hends.readString
  have htext : c.textUpTo (c.position / 8 + (Text.utf8 text).length) = text := by
    have hfirst : c.firstByte = c.position / 8 := by rw [firstByte, hpadding, Nat.add_zero]
    rw [textUpTo, hfirst, Nat.add_sub_cancel_left, h.slice (by omega), List.take_left,
      List.append_nil, Text.lossy_utf8]
  rw [htext] at hread
  obtain ⟨-, -, -, hbytes, hlimit, -⟩ := readString_eq_ok hread
  have hafter : c'.position / 8 = c.position / 8 + ((Text.utf8 text).length + 1) := by omega
  refine ⟨c', hread, by omega, ?_, fun i hi => ?_⟩
  · rw [hlimit, h.limit, hafter]
    omega
  · have hskipped : (Text.utf8 text).length + 1 + i - (Text.utf8 text).length = i + 1 := by omega
    rw [hbytes, hafter, Nat.add_assoc, h.byte _ (by omega), List.getElem_append_right (by omega)]
    simp only [hskipped, List.getElem_cons_succ]

end Ahead

theorem byteAt_of_lt {buffer : ByteArray} {i : Nat} (h : i < buffer.data.toList.length) :
    byteAt buffer i = buffer.data.toList[i].toNat := by
  have hsize : i < buffer.size := h
  unfold byteAt
  rw [dif_pos hsize]
  rfl

/-- All of a buffer is ahead at its start. -/
theorem ahead_ofBytes (buffer : ByteArray) : (ofBytes buffer).Ahead buffer.data.toList where
  limit := by simp [ofBytes]
  byte i h := by
    have hstart : (ofBytes buffer).position / 8 + i = i := by simp [ofBytes]
    rw [hstart]
    exact byteAt_of_lt h

/-- Behind the first bytes of a buffer, the others up to a limit are ahead. -/
theorem ahead_of_append {before after : List UInt8} (hbytes : c.bytes.data.toList =
    before ++ bytes ++ after) (hposition : c.position = 8 * before.length)
    (hlimit : c.limit = 8 * (before.length + bytes.length)) : c.Ahead bytes where
  limit := by omega
  byte i h := by
    have hfirst : c.position / 8 = before.length := by omega
    have hlength : before.length + i < c.bytes.data.toList.length := by
      rw [hbytes]
      simp
      omega
    rw [hfirst, byteAt_of_lt hlength]
    simp only [hbytes]
    rw [List.getElem_append_left (by simp; omega), List.getElem_append_right (by omega)]
    simp only [Nat.add_sub_cancel_left]

theorem toList_extract {buffer : ByteArray} {before after : List UInt8}
    (h : buffer.data.toList = before ++ bytes ++ after) :
    (buffer.extract before.length (before.length + bytes.length)).data.toList = bytes := by
  rw [ByteArray.data_extract, Array.toList_extract, h, List.extract_eq_take_drop,
    Nat.add_sub_cancel_left, List.append_assoc, List.drop_left, List.take_left]

theorem toList_extract_rest {buffer : ByteArray} {before : List UInt8}
    (h : buffer.data.toList = before ++ bytes) :
    (buffer.extract before.length buffer.size).data.toList = bytes := by
  have hsize : buffer.size = before.length + bytes.length := by
    rw [← List.length_append, ← h, Array.length_toList]
    rfl
  rw [hsize]
  exact toList_extract (h.trans (List.append_nil _).symm)

/-- A cursor that is aligned stays where it is. -/
theorem align_of_aligned {alignment : Nat} (h : c.position % alignment = 0) :
    c.align alignment = .ok c := by
  have hpadding : padding c.position alignment = 0 := by
    unfold padding
    rw [h, Nat.sub_zero, Nat.mod_self]
  unfold align Cursor.advance
  rw [hpadding, dif_pos (Nat.zero_le _)]
  rfl

end Cursor

end CommonTrace
