import CommonTrace.Proofs.Bits.Writing
import CommonTrace.Proofs.Text.Replacing

/-!
# Texts that end with a zero byte

A text is read from the first whole byte that is not before the cursor, up to the first zero byte
from there on that lies within the limit as a whole. If there is such a byte, the text is what the
bytes between are read as, and the cursor moves right behind the zero byte; otherwise reading fails.
So a text without the character zero is read back from its bytes with a zero byte behind them,
whatever comes next and wherever in the byte before the cursor has been.
-/
namespace CommonTrace

theorem Bits.slice_eq_take {bytes : ByteArray} {first count : Nat}
    (h : first + count ≤ bytes.data.toList.length) :
    Bits.slice bytes first count [] = (bytes.data.toList.drop first).take count := by
  rw [Bits.slice_eq, List.append_nil]
  apply List.ext_getElem
  · rw [List.length_map, List.length_range, List.length_take, List.length_drop]
    omega
  · intro i hi _
    rw [List.length_map, List.length_range] at hi
    rw [List.getElem_map, List.getElem_range, List.getElem_take, List.getElem_drop,
      Cursor.byteAt_of_lt (by omega), UInt8.ofNat_toNat]

namespace Cursor

variable {c : Cursor} {last : Nat}

/-- The first byte of a text: the one that a cursor is at the start of, or else the next one. -/
def textStart (c : Cursor) : Nat := (c.position + 7) / 8

/-- Whether a text can end at a byte: it is zero, not before the first byte of the text, and within
the limit. -/
structure CanEndAt (c : Cursor) (last : Nat) : Prop where
  le : c.textStart ≤ last
  within : 8 * (last + 1) ≤ c.limit
  zero : c.bytes.data.toList[last]? = some 0

theorem textStart_eq (c : Cursor) : 8 * c.textStart = c.position + padding c.position 8 := by
  unfold textStart padding
  omega

theorem firstByte_eq (c : Cursor) : c.firstByte = c.textStart := by
  have hstart := c.textStart_eq
  unfold firstByte
  omega

/-- All bytes within the limit are bytes of the buffer. -/
theorem lt_length_of_within (h : 8 * (last + 1) ≤ c.limit) : last < c.bytes.data.toList.length := by
  have hlimit := c.limit_le
  show last < c.bytes.size
  omega

theorem byteAt_eq_zero_iff (h : last < c.bytes.data.toList.length) :
    Bits.byteAt c.bytes last = 0 ↔ c.bytes.data.toList[last]? = some 0 := by
  rw [byteAt_of_lt h, List.getElem?_eq_getElem h, Option.some_inj, ← UInt8.toNat_inj]
  rfl

/-- A text ends at the first byte that it can end at. -/
theorem endsAt_iff_isLeast : c.EndsAt last ↔ IsLeast {j | c.CanEndAt j} last := by
  have hstart := c.textStart_eq
  constructor
  · intro h
    have hle := h.le
    have hlt := lt_length_of_within h.within
    refine ⟨⟨by omega, h.within, (byteAt_eq_zero_iff hlt).1 h.zero⟩, fun j hj => ?_⟩
    by_contra hless
    have hle' := hj.le
    have hlt' := lt_length_of_within hj.within
    exact h.before j (by omega) (Nat.not_le.1 hless) ((byteAt_eq_zero_iff hlt').2 hj.zero)
  · rintro ⟨hlast, hleast⟩
    have hle := hlast.le
    have hwithin := hlast.within
    have hlt := lt_length_of_within hwithin
    refine ⟨by omega, hwithin, (byteAt_eq_zero_iff hlt).2 hlast.zero, fun i hi hless hzero => ?_⟩
    have hfound : c.CanEndAt i :=
      ⟨by omega, by omega, (byteAt_eq_zero_iff (Nat.lt_trans hless hlt)).1 hzero⟩
    exact Nat.not_lt.2 (hleast hfound) hless

/-- The bytes of a text that ends at a byte. -/
def textBytes (c : Cursor) (last : Nat) : List UInt8 :=
  (c.bytes.data.toList.drop c.textStart).take (last - c.textStart)

theorem textUpTo_eq (h : c.CanEndAt last) : c.textUpTo last = Text.lossy (c.textBytes last) := by
  have hle := h.le
  have hlt := lt_length_of_within h.within
  rw [textUpTo, firstByte_eq, Bits.slice_eq_take (by omega), textBytes]

/-- Reading a text succeeds where a text can end, with the bytes up to the first such byte. -/
theorem readString_eq_ok_iff {text : String} {next : Cursor} :
    c.readString = .ok (text, next) ↔ ∃ last, IsLeast {j | c.CanEndAt j} last ∧
      Text.ReadAs (c.textBytes last) text.toList ∧
      next.bytes = c.bytes ∧ next.limit = c.limit ∧ next.position = 8 * (last + 1) := by
  constructor
  · intro h
    obtain ⟨last, hends, rfl, hnext⟩ := readString_eq_ok h
    have hleast := endsAt_iff_isLeast.1 hends
    exact ⟨last, hleast, Text.lossy_eq_iff.1 (textUpTo_eq hleast.1).symm, hnext⟩
  · rintro ⟨last, hleast, hread, hbytes, hlimit, hposition⟩
    obtain ⟨next', hrun, hposition'⟩ := (endsAt_iff_isLeast.2 hleast).readString
    obtain ⟨-, -, -, hbytes', hlimit', -⟩ := readString_eq_ok hrun
    have htext : c.textUpTo last = text := by
      rw [textUpTo_eq hleast.1]
      exact Text.lossy_eq_iff.2 hread
    have hnext : next' = next := by
      cases next
      cases next'
      simp only [mk.injEq] at *
      exact ⟨hbytes'.trans hbytes.symm, hlimit'.trans hlimit.symm, hposition'.trans hposition.symm⟩
    rw [hrun, htext, hnext]

/-- The bytes of a text without the character zero, with a zero byte behind them, end where they
should. -/
theorem isLeast_of_written {text : String} (hnul : '\x00' ∉ text.toList)
    (hbytes : Text.utf8 text ++ [0] <+: c.bytes.data.toList.drop c.textStart)
    (hwithin : 8 * (c.textStart + (Text.utf8 text).length + 1) ≤ c.limit) :
    IsLeast {j | c.CanEndAt j} (c.textStart + (Text.utf8 text).length) ∧
      c.textBytes (c.textStart + (Text.utf8 text).length) = Text.utf8 text := by
  obtain ⟨rest, hrest⟩ := hbytes
  have hbyte (i : Nat) : c.bytes.data.toList[c.textStart + i]? =
      (Text.utf8 text ++ [0] ++ rest)[i]? := by
    rw [hrest, List.getElem?_drop]
  have hzero : c.bytes.data.toList[c.textStart + (Text.utf8 text).length]? = some 0 := by
    rw [hbyte]
    simp
  refine ⟨⟨⟨Nat.le_add_right _ _, hwithin, hzero⟩, fun j hj => ?_⟩, ?_⟩
  · by_contra hless
    obtain ⟨i, rfl⟩ := Nat.exists_eq_add_of_le hj.le
    have hi : i < (Text.utf8 text).length := by omega
    have hfound := hj.zero
    rw [hbyte, List.append_assoc, List.getElem?_append_left hi, List.getElem?_eq_getElem hi,
      Option.some_inj] at hfound
    exact Text.ne_zero_of_mem_utf8 hnul (List.getElem_mem hi) hfound
  · rw [textBytes, ← hrest, Nat.add_sub_cancel_left, List.append_assoc, List.take_left]

/-- A text is read if and only if there is a zero byte within the limit, not before the first whole
byte from the cursor on. It is then what the bytes up to the first such byte are read as, and the
cursor moves behind that byte. A text without the character zero is read back from the bytes that it
is written in. -/
theorem readString_terminated (c : Cursor) :
    ((∃ text next, c.readString = .ok (text, next)) ↔
      8 * c.textStart ≤ c.limit ∧ ∃ j, c.CanEndAt j) ∧
    (∀ text next, c.readString = .ok (text, next) ↔ ∃ last, IsLeast {j | c.CanEndAt j} last ∧
      Text.ReadAs (c.textBytes last) text.toList ∧
      next.bytes = c.bytes ∧ next.limit = c.limit ∧ next.position = 8 * (last + 1)) ∧
    ∀ text : String, '\x00' ∉ text.toList →
      text.toByteArray.data.toList ++ [0] <+: c.bytes.data.toList.drop c.textStart →
      8 * (c.textStart + text.utf8ByteSize + 1) ≤ c.limit →
      ∃ next, c.readString = .ok (text, next) ∧
        next.position = 8 * (c.textStart + text.utf8ByteSize + 1) := by
  refine ⟨⟨?_, ?_⟩, fun text next => readString_eq_ok_iff, fun text hnul hbytes hwithin => ?_⟩
  · rintro ⟨text, next, h⟩
    obtain ⟨last, hleast, -⟩ := readString_eq_ok_iff.1 h
    have hle := hleast.1.le
    have hwithin := hleast.1.within
    exact ⟨by omega, last, hleast.1⟩
  · rintro ⟨-, j, hj⟩
    classical
    have hleast : IsLeast {j | c.CanEndAt j} (Nat.find ⟨j, hj⟩) := Nat.isLeast_find ⟨j, hj⟩
    obtain ⟨next, h, -⟩ := (endsAt_iff_isLeast.2 hleast).readString
    exact ⟨_, next, h⟩
  · have hlength : (Text.utf8 text).length = text.utf8ByteSize := by
      rw [← Text.toList_toByteArray, Array.length_toList]
      rfl
    rw [Text.toList_toByteArray] at hbytes
    rw [← hlength] at hwithin ⊢
    obtain ⟨hleast, htext⟩ := isLeast_of_written hnul hbytes hwithin
    obtain ⟨next, h, hposition⟩ := (endsAt_iff_isLeast.2 hleast).readString
    refine ⟨next, ?_, hposition⟩
    rw [h, textUpTo_eq hleast.1, htext, Text.lossy_utf8]

/-- A text is read from inside the byte before it, with another text behind it. -/
theorem readString_terminated_unaligned :
    let c : Cursor := ⟨⟨#[0x78, 0x68, 0xC3, 0xA9, 0, 0x72, 0]⟩, 42, 3, by decide, by decide⟩
    ∃ next, c.readString = .ok ("hé", next) ∧ next.position = 40 :=
  (readString_terminated _).2.2 "hé" (by decide) (by decide +kernel) (by decide +kernel)

end Cursor

end CommonTrace
