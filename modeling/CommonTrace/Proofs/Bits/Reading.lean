import CommonTrace.Bits.Cursor
import CommonTrace.Declaration.Scalar
import Mathlib.Order.Bounds.Basic

/-!
# What a reading depends on

A reading depends on where it starts and on the bytes up to where it ends. It goes the
same way in any buffer that has the same bytes there, whatever follows, as long as the
limit of that buffer is not before its end. It never goes back nor past the limit, and it
can fail only for want of bits.
-/
namespace CommonTrace

/-- The type of bytes. -/
def IntegerType.byte : IntegerType :=
  ⟨8, Alignment.byte.positive, by decide, false, .little, .decimal, .byte, .none⟩

namespace Bits

/-- Buffers with the same bytes as far as they start before the bit `stop`. -/
def SameBelow (stop : Nat) (bytes bytes' : ByteArray) : Prop :=
  ∀ i, 8 * i < stop → byteAt bytes i = byteAt bytes' i

variable {bytes bytes' : ByteArray} {stop position width first count last : Nat}

theorem SameBelow.mono {stop' : Nat} (h : SameBelow stop bytes bytes') (hle : stop' ≤ stop) :
    SameBelow stop' bytes bytes' :=
  fun i hi => h i (Nat.lt_of_lt_of_le hi hle)

theorem byteAt_extract {start i : Nat} :
    byteAt (bytes.extract start stop) i =
      if i < min stop bytes.size - start then byteAt bytes (start + i) else 0 := by
  unfold byteAt
  by_cases hi : i < min stop bytes.size - start
  · rw [if_pos hi, dif_pos (by rwa [ByteArray.size_extract]), dif_pos (by omega),
      ByteArray.getElem_extract]
  · rw [if_neg hi, dif_neg (by rwa [ByteArray.size_extract])]

theorem slice_congr (rest : List UInt8)
    (h : ∀ i < count, byteAt bytes (first + i) = byteAt bytes' (first + i)) :
    slice bytes first count rest = slice bytes' first count rest := by
  induction count generalizing rest with
  | zero => rfl
  | succ count ih =>
    rw [slice, slice, h count (Nat.lt_succ_self count),
      ih _ fun i hi => h i (Nat.lt_succ_of_lt hi)]

theorem bytesValue_congr (order : ByteOrder)
    (h : ∀ i < count, byteAt bytes (first + i) = byteAt bytes' (first + i)) :
    bytesValue order bytes first count = bytesValue order bytes' first count := by
  unfold bytesValue
  rw [slice_congr [] h]

theorem bit_congr (order : ByteOrder)
    (h : byteAt bytes (position / 8) = byteAt bytes' (position / 8)) :
    bit order bytes position = bit order bytes' position := by
  unfold bit
  rw [h]

theorem bitsValue_congr (order : ByteOrder)
    (h : ∀ i < count, bit order bytes (position + i) = bit order bytes' (position + i)) :
    bitsValue order bytes position count = bitsValue order bytes' position count := by
  induction count with
  | zero => rfl
  | succ count ih =>
    have hlast := h count (Nat.lt_succ_self count)
    have hrest := ih fun i hi => h i (Nat.lt_succ_of_lt hi)
    unfold bitsValue
    rw [hrest, hlast]

/-- A field is read from the bytes that it touches. -/
theorem field_congr (order : ByteOrder) (h : SameBelow (position + width) bytes bytes') :
    field order bytes position width = field order bytes' position width := by
  unfold field
  split
  · apply bytesValue_congr
    intro i hi
    apply h
    omega
  · apply bitsValue_congr
    intro i hi
    apply bit_congr
    apply h
    omega

/-- What is found is a zero byte, and the first one. -/
theorem findZero_eq_some {hlast : last < stop} :
    findZero bytes stop first = some ⟨last, hlast⟩ ↔
      first ≤ last ∧ byteAt bytes last = 0 ∧ ∀ i, first ≤ i → i < last → byteAt bytes i ≠ 0 := by
  fun_induction findZero bytes stop first with
  | case1 first hfirst hzero =>
    constructor
    · intro h
      cases h
      exact ⟨Nat.le_refl _, hzero, fun i hle hlt => absurd hlt (Nat.not_lt.2 hle)⟩
    · rintro ⟨hle, -, hbefore⟩
      have heq : first = last := by
        apply Decidable.byContradiction
        intro hne
        exact hbefore first (Nat.le_refl _) (Nat.lt_of_le_of_ne hle hne) hzero
      subst heq
      rfl
  | case2 first hfirst hzero ih =>
    rw [ih]
    constructor
    · rintro ⟨hle, hlast, hbefore⟩
      refine ⟨by omega, hlast, fun i hi hlt => ?_⟩
      rcases Nat.eq_or_lt_of_le hi with rfl | hi
      · exact hzero
      · exact hbefore i hi hlt
    · rintro ⟨hle, hlast, hbefore⟩
      have hne : first ≠ last := by
        rintro rfl
        exact hzero hlast
      exact ⟨by omega, hlast, fun i hi hlt => hbefore i (by omega) hlt⟩
  | case3 first hfirst =>
    simp only [reduceCtorEq, false_iff]
    rintro ⟨hle, -⟩
    omega

end Bits

namespace Cursor

open Bits

variable {α β : Type} {c c' d : Cursor} {bits : Nat}

theorem map_eq_ok {ε : Type} {result : Except ε α} {f : α → β} {b : β}
    (h : result.map f = .ok b) : ∃ a, result = .ok a ∧ f a = b := by
  cases result with
  | error e => cases h
  | ok a =>
    cases h
    exact ⟨a, rfl, rfl⟩

theorem map_eq_error {ε : Type} {result : Except ε α} {f : α → β} {e : ε}
    (h : result.map f = .error e) : result = .error e := by
  cases result with
  | error e' =>
    cases h
    rfl
  | ok a => cases h

theorem advance_eq_ok (h : c.advance bits = .ok c') :
    c'.bytes = c.bytes ∧ c'.limit = c.limit ∧ c'.position = c.position + bits ∧
      bits ≤ c.remaining := by
  unfold advance at h
  split at h
  next hle =>
    cases h
    exact ⟨rfl, rfl, rfl, hle⟩
  · cases h

theorem advance_eq_error {e : Error} (h : c.advance bits = .error e) :
    e = .bufferOverrun c.position bits c.remaining := by
  unfold advance at h
  split at h
  · cases h
  · cases h
    rfl

theorem exists_advance_of_remaining (h : bits ≤ c.remaining) :
    ∃ next, c.advance bits = .ok next ∧ next.position = c.position + bits := by
  unfold advance
  rw [dif_pos h]
  exact ⟨_, rfl, rfl⟩

theorem exists_advance (h : c.position + bits ≤ c.limit) :
    ∃ next, c.advance bits = .ok next ∧ next.position = c.position + bits := by
  apply exists_advance_of_remaining
  rw [remaining]
  omega

/-- A position moves by its padding to the first aligned position that is not before it. -/
theorem isLeast_padding (position : Nat) {alignment : Nat} (hpos : 0 < alignment) :
    IsLeast {i | position ≤ i ∧ alignment ∣ i} (position + padding position alignment) := by
  have hrest := Nat.mod_lt position hpos
  have hposition := Nat.mod_add_div position alignment
  unfold padding
  by_cases hzero : position % alignment = 0
  · rw [hzero, Nat.sub_zero, Nat.mod_self, Nat.add_zero]
    exact ⟨⟨Nat.le_refl _, Nat.dvd_of_mod_eq_zero hzero⟩, fun i hi => hi.1⟩
  · rw [Nat.mod_eq_of_lt (by omega)]
    have hnext : position + (alignment - position % alignment) =
        alignment * (position / alignment + 1) := by
      rw [Nat.mul_add]
      omega
    rw [hnext]
    refine ⟨⟨by omega, Nat.dvd_mul_right _ _⟩, ?_⟩
    rintro _ ⟨hi, factor, rfl⟩
    -- an aligned position is past the multiple that the first one has already passed
    have hfactor : position / alignment < factor := by
      by_contra hle
      have hmul := Nat.mul_le_mul_left alignment (Nat.not_lt.1 hle)
      omega
    exact Nat.mul_le_mul_left alignment hfactor

theorem isLeast_of_align {alignment : Nat} (hpos : 0 < alignment)
    (h : c.align alignment = .ok c') :
    IsLeast {i | c.position ≤ i ∧ alignment ∣ i} c'.position := by
  obtain ⟨-, -, hposition, -⟩ := advance_eq_ok h
  rw [hposition]
  exact isLeast_padding c.position hpos

/-- A number that is read has 1 to 64 bits, and the cursor moves past them. -/
theorem readUnsigned_eq_ok {width value : Nat} {order : ByteOrder}
    (h : c.readUnsigned width order = .ok (value, c')) :
    0 < width ∧ width ≤ 64 ∧ value = field order c.bytes c.position width ∧
      c.advance width = .ok c' := by
  unfold readUnsigned at h
  split at h
  · cases h
  next hwidth =>
    obtain ⟨next, hadvance, hvalue⟩ := map_eq_ok h
    cases hvalue
    exact ⟨by omega, by omega, rfl, hadvance⟩

/-- A floating point value that is read takes all of its bits. -/
theorem readFloat_eq_ok {exponentBits mantissaBits : Nat} {order : ByteOrder} {value : Binary64}
    (h : c.readFloat exponentBits mantissaBits order = .ok (value, c')) :
    ∃ raw, c.readUnsigned (floatWidth exponentBits mantissaBits) order = .ok (raw, c') := by
  unfold readFloat at h
  split at h
  next hwidth =>
    obtain ⟨result, hread, hvalue⟩ := map_eq_ok h
    cases hvalue
    exact ⟨result.1, hwidth ▸ hread⟩
  next hwidth =>
    obtain ⟨result, hread, hvalue⟩ := map_eq_ok h
    cases hvalue
    exact ⟨result.1, hwidth ▸ hread⟩
  · cases h

/-- The first whole byte that is not before a cursor. -/
def firstByte (c : Cursor) : Nat := (c.position + padding c.position 8) / 8

/-- The text from a cursor up to a byte. -/
def textUpTo (c : Cursor) (last : Nat) : String :=
  Text.lossy (slice c.bytes c.firstByte (last - c.firstByte) [])

/-- A byte is the first zero byte from a cursor on, and lies within the limit. -/
structure EndsAt (c : Cursor) (last : Nat) : Prop where
  le : c.position + padding c.position 8 ≤ 8 * last
  within : 8 * (last + 1) ≤ c.limit
  zero : byteAt c.bytes last = 0
  before : ∀ i, c.position + padding c.position 8 ≤ 8 * i → i < last → byteAt c.bytes i ≠ 0

theorem dvd_padding (position : Nat) : (position + padding position 8) % 8 = 0 := by
  unfold padding
  omega

theorem readString_eq_ok {text : String} (h : c.readString = .ok (text, c')) :
    ∃ last, c.EndsAt last ∧ text = c.textUpTo last ∧
      c'.bytes = c.bytes ∧ c'.limit = c.limit ∧ c'.position = 8 * (last + 1) := by
  unfold readString at h
  split at h
  · cases h
  next start hstart =>
    obtain ⟨-, -, hposition, -⟩ := advance_eq_ok hstart
    have hdvd := dvd_padding c.position
    have hfirst : start.position / 8 = c.firstByte := by rw [hposition, firstByte]
    dsimp only at h
    split at h
    next last hlast hfound =>
      obtain ⟨hle, hzero, hbefore⟩ := findZero_eq_some.1 hfound
      cases h
      refine ⟨last, ⟨by omega, by omega, hzero, fun i hi hlt => hbefore i (by omega) hlt⟩, ?_, rfl,
        rfl, rfl⟩
      rw [textUpTo, hfirst]
    · cases h

theorem EndsAt.readString {last : Nat} (h : c.EndsAt last) :
    ∃ c', c.readString = .ok (c.textUpTo last, c') ∧ c'.position = 8 * (last + 1) := by
  have hle := h.le
  have hwithin := h.within
  have hdvd := dvd_padding c.position
  obtain ⟨start, hstart, hposition⟩ := @exists_advance c (padding c.position 8) (by omega)
  have hfirst : start.position / 8 = c.firstByte := by rw [hposition, firstByte]
  have hlast : last < c.limit / 8 := by omega
  have hfound : findZero c.bytes (c.limit / 8) (start.position / 8) = some ⟨last, hlast⟩ := by
    rw [findZero_eq_some]
    exact ⟨by omega, h.zero, fun i hi hlt => h.before i (by omega) hlt⟩
  unfold Cursor.readString Cursor.align
  rw [hstart]
  dsimp only
  rw [hfound, hfirst]
  exact ⟨_, rfl, rfl⟩

/-- A way of reading that never goes back, stays within the limit, fails only for want of bits,
and depends on no more of the buffer than it has passed: it goes the same way in any buffer that has
this part, if the limit there is not before the end of the part or not before the limit here. -/
structure Reads (f : Cursor → Except Error (α × Cursor)) : Prop where
  forward : ∀ {c a c'}, f c = .ok (a, c') →
    c'.bytes = c.bytes ∧ c'.limit = c.limit ∧ c.position ≤ c'.position
  within : ∀ {c a c'}, f c = .ok (a, c') → c.position ≤ c.limit → c'.position ≤ c.limit
  overruns : ∀ {c e}, f c = .error e →
    ∃ position requested available, e = .bufferOverrun position requested available
  bounded : ∀ {c d a c'}, f c = .ok (a, c') → d.position = c.position →
    c'.position ≤ d.limit ∨ c.limit ≤ d.limit → SameBelow c'.position c.bytes d.bytes →
    ∃ d', f d = .ok (a, d') ∧ d'.position = c'.position

namespace Reads

/-- Reading a number of bits that depends on the position alone, and as much of the
buffer. -/
theorem advance (width : Nat → Nat) (value : ByteArray → Nat → α)
    (hvalue : ∀ bytes bytes' position, SameBelow (position + width position) bytes bytes' →
      value bytes position = value bytes' position) :
    Reads fun c => (c.advance (width c.position)).map fun next =>
      (value c.bytes c.position, next) where
  forward {c a c'} h := by
    obtain ⟨next, hadvance, ⟨⟩⟩ := map_eq_ok h
    obtain ⟨hbytes, hlimit, hposition, -⟩ := advance_eq_ok hadvance
    exact ⟨hbytes, hlimit, by omega⟩
  within {c a c'} h hc := by
    obtain ⟨next, hadvance, ⟨⟩⟩ := map_eq_ok h
    obtain ⟨-, -, hposition, hle⟩ := advance_eq_ok hadvance
    rw [remaining] at hle
    omega
  overruns {c e} h := ⟨_, _, _, advance_eq_error (map_eq_error h)⟩
  bounded {c d a c'} h hd hlimit hsame := by
    obtain ⟨next, hadvance, ⟨⟩⟩ := map_eq_ok h
    obtain ⟨-, -, hposition, hle⟩ := advance_eq_ok hadvance
    rw [hposition] at hlimit hsame
    have hroom : width c.position ≤ d.remaining := by
      rw [remaining] at hle ⊢
      omega
    obtain ⟨d', hd', hposition'⟩ := exists_advance_of_remaining hroom
    refine ⟨d', ?_, by rw [hposition', hposition, hd]⟩
    simp only [hd, hd', Except.map, hvalue _ _ _ hsame]

theorem map {f : Cursor → Except Error (α × Cursor)} (h : Reads f) (g : α → β) :
    Reads fun c => (f c).map fun (a, next) => (g a, next) where
  forward {c b c'} hc := by
    obtain ⟨result, hf, ⟨⟩⟩ := map_eq_ok hc
    exact h.forward hf
  within {c b c'} hc := by
    obtain ⟨result, hf, ⟨⟩⟩ := map_eq_ok hc
    exact h.within hf
  overruns {c e} hc := h.overruns (map_eq_error hc)
  bounded {c d b c'} hc hd hlimit hsame := by
    obtain ⟨result, hf, ⟨⟩⟩ := map_eq_ok hc
    obtain ⟨d', hd', hposition⟩ := h.bounded hf hd hlimit hsame
    exact ⟨d', by simp only [hd', Except.map], hposition⟩

/-- Moving to a multiple of an alignment reads nothing. -/
theorem align (alignment : Nat) : Reads fun c => (c.align alignment).map fun next => ((), next) :=
  advance (fun position => padding position alignment) (fun _ _ => ()) fun _ _ _ _ => rfl

theorem readUnsigned {width : Nat} (hpos : 0 < width) (hle : width ≤ 64) (order : ByteOrder) :
    Reads fun c => c.readUnsigned width order := by
  have hread : (fun c : Cursor => c.readUnsigned width order) =
      fun c => (c.advance width).map fun next => (field order c.bytes c.position width, next) := by
    funext c
    exact if_neg (by omega)
  rw [hread]
  exact advance (fun _ => width) (fun bytes position => field order bytes position width)
    fun _ _ _ h => field_congr order h

theorem readSigned {width : Nat} (hpos : 0 < width) (hle : width ≤ 64) (order : ByteOrder) :
    Reads fun c => c.readSigned width order :=
  (readUnsigned hpos hle order).map (signed width)

theorem readFloat (precision : Precision) (order : ByteOrder) :
    Reads fun c => c.readFloat precision.exponentBits precision.mantissaBits order := by
  have hword {width : Nat} (hpos : 0 < width) (hle : width ≤ 64) (decode : Nat → Binary64) :=
    (readUnsigned hpos hle order).map decode
  cases precision with
  | single => exact hword (by decide) (by decide) Binary64.ofBinary32
  | double => exact hword (by decide) (by decide) fun value => ⟨UInt64.ofNat value⟩

/-- A text ends at the same zero byte in any buffer that has the same bytes up to there. -/
theorem readString : Reads fun c => c.readString where
  forward {c a c'} h := by
    obtain ⟨last, hends, -, hbytes, hlimit, hposition⟩ := readString_eq_ok h
    have hle := hends.le
    exact ⟨hbytes, hlimit, by omega⟩
  within {c a c'} h _ := by
    obtain ⟨last, hends, -, -, -, hposition⟩ := readString_eq_ok h
    rw [hposition]
    exact hends.within
  overruns {c e} h := by
    unfold Cursor.readString at h
    split at h
    next e' halign =>
      cases h
      exact ⟨_, _, _, advance_eq_error halign⟩
    · dsimp only at h
      split at h
      · cases h
      · cases h
        exact ⟨_, _, _, rfl⟩
  bounded {c d a c'} h hd hlimit hsame := by
    obtain ⟨last, hends, rfl, -, -, hposition⟩ := readString_eq_ok h
    rw [hposition] at hlimit hsame ⊢
    have hbytes : ∀ i ≤ last, byteAt c.bytes i = byteAt d.bytes i := by
      intro i hi
      apply hsame
      omega
    have hwithin : 8 * (last + 1) ≤ d.limit := by
      have := hends.within
      omega
    have hends' : d.EndsAt last := by
      refine ⟨hd ▸ hends.le, hwithin, hbytes last (Nat.le_refl _) ▸ hends.zero, fun i hi hlt => ?_⟩
      rw [← hbytes i (Nat.le_of_lt hlt)]
      exact hends.before i (hd ▸ hi) hlt
    obtain ⟨d', hrun, hposition'⟩ := hends'.readString
    refine ⟨d', ?_, hposition'⟩
    have htext : d.textUpTo last = c.textUpTo last := by
      unfold textUpTo firstByte
      rw [hd]
      exact congrArg _ (slice_congr [] fun i hi => (hbytes _ (by omega)).symm)
    rw [hrun, htext]

end Reads

end Cursor

end CommonTrace
