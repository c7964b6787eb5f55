import CommonTrace.Proofs.Bits.Positional

/-!
# Cursors that are moved in place

A cursor in place is a buffer and two numbers that no proof goes with. Its operations change the
numbers step by step, and look up bytes at indices that they have computed; an index outside the
buffer would stop them. On numbers that are within the buffer they do what the operations on cursors
do: they look up no byte outside, they end in the same place with the same result, and where they
fail they leave the numbers as they were, also where they have moved on the way.
-/
namespace CommonTrace

/-- A buffer with a position in its bits and a limit to what may be read. -/
structure RawCursor where
  bytes : ByteArray
  limit : Nat
  position : Nat

/-- The numbers of a cursor. -/
def Cursor.raw (c : Cursor) : RawCursor := ⟨c.bytes, c.limit, c.position⟩

@[simp] theorem Cursor.raw_limit (c : Cursor) : c.raw.limit = c.limit := rfl

@[simp] theorem Cursor.raw_position (c : Cursor) : c.raw.position = c.position := rfl

/-- Why an operation stops: it fails, or it looks up bytes that are not there. -/
inductive Stop where
  | failure (e : Error)
  | outside (index : Nat)

/-- A step of an operation in place. -/
abbrev Operate := EStateM Stop RawCursor

/-- What an operation in place comes to if it does what an operation on a cursor does. -/
def Cursor.inPlace {α : Type} (c : Cursor) : Except Error (α × Cursor) →
    EStateM.Result Stop RawCursor α
  | .ok (a, next) => .ok a next.raw
  | .error e => .error (.failure e) c.raw

namespace Cursor

variable {α : Type} {c : Cursor} {result : Except Error (α × Cursor)} {a : α} {s : RawCursor}

theorem inPlace_eq_ok :
    c.inPlace result = .ok a s ↔ ∃ next, result = .ok (a, next) ∧ s = next.raw := by
  cases result with
  | error e => simp [inPlace]
  | ok read =>
    simp only [inPlace, EStateM.Result.ok.injEq, Except.ok.injEq]
    constructor
    · rintro ⟨rfl, rfl⟩
      exact ⟨read.2, rfl, rfl⟩
    · rintro ⟨next, rfl, rfl⟩
      exact ⟨rfl, rfl⟩

theorem inPlace_eq_error {stop : Stop} :
    c.inPlace result = .error stop s ↔
      ∃ e, result = .error e ∧ stop = .failure e ∧ s = c.raw := by
  cases result with
  | ok read => simp [inPlace]
  | error e =>
    simp only [inPlace, EStateM.Result.error.injEq, Except.error.injEq]
    constructor
    · rintro ⟨rfl, rfl⟩
      exact ⟨e, rfl, rfl, rfl⟩
    · rintro ⟨e', rfl, rfl, rfl⟩
      exact ⟨rfl, rfl⟩

end Cursor

namespace RawCursor

/-- How many bits may still be read. -/
def remaining (c : RawCursor) : Nat := c.limit - c.position

/-- Fails. -/
def fail {α : Type} (e : Error) : Operate α := throw (.failure e)

/-- Moves to a position. -/
def moveTo (position : Nat) : Operate Unit := modify ({ · with position })

/-- Checks that bits are left. -/
def check (bits : Nat) : Operate Unit := do
  let c ← get
  if c.remaining < bits then fail (.bufferOverrun c.position bits c.remaining)

/-- A byte of the buffer. -/
def byteAt (index : Nat) : Operate Nat := fun c =>
  if h : index < c.bytes.size then .ok c.bytes[index].toNat c else .error (.outside index) c

/-- The bytes of the buffer from `first` up to `stop`. -/
def slice (first stop : Nat) : Operate (List UInt8) := fun c =>
  if first ≤ stop ∧ stop ≤ c.bytes.size then .ok (Bits.slice c.bytes first (stop - first) []) c
  else .error (.outside stop) c

/-- Sets the limit, at most to the end of the buffer. -/
def withLimit (bits : Nat) : Operate Unit :=
  modify fun c => { c with limit := min bits (8 * c.bytes.size) }

/-- Moves to a position within the limit. -/
def seek (target : Nat) : Operate Unit := do
  let c ← get
  if c.limit < target then
    fail (.bufferOverrun c.position (target - min c.position target) c.remaining)
  else moveTo target

/-- Moves to the next multiple of an alignment. -/
def align (alignment : Nat) : Operate Unit := do
  let c ← get
  if alignment ≤ 1 then return
  else if c.position % alignment = 0 then return
  else
    let padding := alignment - c.position % alignment
    check padding
    moveTo (c.position + padding)

/-- The number formed by `count` bits from `position` on, each of which is looked up. -/
def bitsValue (order : ByteOrder) (position : Nat) : Nat → Operate Nat
  | 0 => return 0
  | count + 1 => do
    let value ← bitsValue order position count
    let byte ← byteAt ((position + count) / 8)
    match order with
    | .little => return value ||| (byte / 2 ^ ((position + count) % 8) % 2) <<< count
    | .big => return value <<< 1 ||| byte / 2 ^ (7 - (position + count) % 8) % 2

/-- The number formed by `count` bytes from `first` on. -/
def bytesValue (order : ByteOrder) (first count : Nat) : Operate Nat := do
  let bytes ← slice first (first + count)
  match order with
  | .little => return bytes.foldr (fun byte value => value <<< 8 ||| byte.toNat) 0
  | .big => return bytes.foldl (fun value byte => value <<< 8 ||| byte.toNat) 0

/-- The unsigned value of a bit field. -/
def field (order : ByteOrder) (position width : Nat) : Operate Nat :=
  if position % 8 = 0 ∧ width % 8 = 0 then bytesValue order (position / 8) (width / 8)
  else bitsValue order position width

/-- Reads an unsigned integer of 1 to 64 bits. -/
def readUnsigned (width : Nat) (order : ByteOrder) : Operate Nat :=
  if width = 0 ∨ 64 < width then fail (.malformed (.integerWidth width))
  else do
    check width
    let c ← get
    let value ← field order c.position width
    moveTo (c.position + width)
    return value

/-- Reads a two's complement integer of 1 to 64 bits. -/
def readSigned (width : Nat) (order : ByteOrder) : Operate Int := do
  return Bits.signed width (← readUnsigned width order)

/-- Reads a floating point value of 32 or 64 bits. -/
def readFloat (exponentBits mantissaBits : Nat) (order : ByteOrder) : Operate Binary64 :=
  match Bits.floatWidth exponentBits mantissaBits with
  | 32 => return .ofBinary32 (← readUnsigned 32 order)
  | 64 => return ⟨UInt64.ofNat (← readUnsigned 64 order)⟩
  | width => fail (.malformed (.floatWidth width))

/-- Reads a text that ends with a zero byte, from the next byte boundary on. If there is no zero
byte within the limit, the cursor goes back to where it was before it moved to the boundary. -/
def readString : Operate String := do
  let start := (← get).position
  align 8
  let c ← get
  let region ← slice (c.position / 8) (max (c.limit / 8) (c.position / 8))
  match region.findIdx? (· == 0) with
  | some length =>
    moveTo (c.position + 8 * (length + 1))
    return Text.lossy (region.take length)
  | none =>
    let available := c.limit - c.position
    moveTo start
    fail (.bufferOverrun start (available + 8) available)

variable {c : Cursor} {order : ByteOrder} {width first stop count : Nat}

theorem bind_ok {α β : Type} {m : Operate α} {k : α → Operate β} {s s' : RawCursor} {a : α}
    (h : m s = .ok a s') : (m >>= k) s = k a s' := by
  show EStateM.bind m k s = _
  unfold EStateM.bind
  rw [h]

theorem bind_error {α β : Type} {m : Operate α} {k : α → Operate β} {s s' : RawCursor}
    {stop : Stop} (h : m s = .error stop s') : (m >>= k) s = .error stop s' := by
  show EStateM.bind m k s = _
  unfold EStateM.bind
  rw [h]

theorem check_raw (c : Cursor) (bits : Nat) :
    check bits c.raw = c.inPlace (if bits ≤ c.remaining then .ok ((), c) else
      .error (c.overrun bits)) := by
  have hcheck : check bits c.raw = (if c.remaining < bits then
      fail (.bufferOverrun c.position bits c.remaining) else pure () : Operate Unit) c.raw := rfl
  rw [hcheck]
  by_cases h : bits ≤ c.remaining
  · rw [if_pos h, if_neg (Nat.not_lt.2 h)]
    rfl
  · rw [if_neg h, if_pos (Nat.not_le.1 h)]
    rfl

/-- Checking that bits are left and then moving past them is advancing. -/
theorem check_moveTo (c : Cursor) (bits : Nat) :
    (check bits >>= fun _ => moveTo (c.position + bits)) c.raw =
      c.inPlace ((c.advance bits).map fun next => ((), next)) := by
  unfold Cursor.advance
  by_cases h : bits ≤ c.remaining
  · rw [bind_ok (by rw [check_raw, if_pos h]; rfl), dif_pos h]
    rfl
  · rw [bind_error (by rw [check_raw, if_neg h]; rfl), dif_neg h]
    rfl

theorem withLimit_raw (c : Cursor) (bits : Nat) :
    withLimit bits c.raw = c.inPlace (.ok ((), c.withLimit bits)) :=
  rfl

theorem seek_raw (c : Cursor) (target : Nat) :
    seek target c.raw = c.inPlace ((c.seek target).map fun next => ((), next)) := by
  have hseek : seek target c.raw = (if c.limit < target then
      fail (.bufferOverrun c.position (target - min c.position target) c.remaining)
    else moveTo target : Operate Unit) c.raw := rfl
  rw [hseek]
  unfold Cursor.seek
  by_cases h : target ≤ c.limit
  · rw [dif_pos h, if_neg (Nat.not_lt.2 h)]
    rfl
  · have hless : target - min c.position target = target - c.position := by omega
    rw [dif_neg h, if_pos (Nat.not_le.1 h), hless]
    rfl

theorem align_raw (c : Cursor) (alignment : Nat) :
    align alignment c.raw = c.inPlace ((c.align alignment).map fun next => ((), next)) := by
  have halign : align alignment c.raw = (if alignment ≤ 1 then return
    else if c.position % alignment = 0 then return
    else do
      check (alignment - c.position % alignment)
      moveTo (c.position + (alignment - c.position % alignment)) : Operate Unit) c.raw := rfl
  have hstay (h : Cursor.padding c.position alignment = 0) :
      c.inPlace ((c.align alignment).map fun next => ((), next)) = .ok () c.raw := by
    unfold Cursor.align
    rw [h, ← check_moveTo]
    rfl
  rw [halign]
  by_cases hsmall : alignment ≤ 1
  · rw [if_pos hsmall, hstay]
    · rfl
    · unfold Cursor.padding
      obtain rfl | rfl : alignment = 0 ∨ alignment = 1 := by omega
      · simp
      · exact Nat.mod_one _
  · rw [if_neg hsmall]
    by_cases hzero : c.position % alignment = 0
    · rw [if_pos hzero, hstay]
      · rfl
      · rw [Cursor.padding, hzero, Nat.sub_zero, Nat.mod_self]
    · have hpadding : Cursor.padding c.position alignment =
          alignment - c.position % alignment :=
        Nat.mod_eq_of_lt (by omega)
      rw [if_neg hzero, Cursor.align, hpadding, ← check_moveTo]

theorem byteAt_raw {index : Nat} (h : index < c.bytes.size) :
    byteAt index c.raw = .ok (Bits.byteAt c.bytes index) c.raw := by
  unfold byteAt Bits.byteAt
  exact (dif_pos h).trans (by rw [dif_pos h]; rfl)

theorem slice_raw (hle : first ≤ stop) (hstop : stop ≤ c.bytes.size) :
    slice first stop c.raw = .ok (Bits.slice c.bytes first (stop - first) []) c.raw :=
  if_pos ⟨hle, hstop⟩

/-- All bits of a field within the buffer are in bytes of the buffer. -/
theorem bitsValue_raw {position : Nat} (h : position + count ≤ 8 * c.bytes.size) :
    bitsValue order position count c.raw =
      .ok (Bits.bitsValue order c.bytes position count) c.raw := by
  induction count with
  | zero => rfl
  | succ count ih =>
    have hbyte := @byteAt_raw c ((position + count) / 8) (by omega)
    unfold bitsValue Bits.bitsValue
    rw [bind_ok (ih (by omega)), bind_ok hbyte]
    cases order with
    | little => rfl
    | big => rfl

theorem bytesValue_raw (h : first + count ≤ c.bytes.size) :
    bytesValue order first count c.raw =
      .ok (Bits.bytesValue order c.bytes first count) c.raw := by
  have hslice := @slice_raw c first (first + count) (by omega) h
  rw [Nat.add_sub_cancel_left] at hslice
  unfold bytesValue Bits.bytesValue
  rw [bind_ok hslice]
  cases order with
  | little => rfl
  | big => rfl

/-- A field within the buffer is looked up in whichever way. -/
theorem field_raw (h : c.position + width ≤ 8 * c.bytes.size) :
    field order c.position width c.raw =
      .ok (Bits.field order c.bytes c.position width) c.raw := by
  unfold field Bits.field
  by_cases hwhole : c.position % 8 = 0 ∧ width % 8 = 0
  · rw [if_pos hwhole, if_pos hwhole, bytesValue_raw (by omega)]
  · rw [if_neg hwhole, if_neg hwhole, bitsValue_raw h]

theorem readUnsigned_raw (c : Cursor) (width : Nat) (order : ByteOrder) :
    readUnsigned width order c.raw = c.inPlace (c.readUnsigned width order) := by
  unfold readUnsigned Cursor.readUnsigned Cursor.advance
  by_cases hwidth : width = 0 ∨ 64 < width
  · rw [if_pos hwidth, if_pos hwidth]
    rfl
  · rw [if_neg hwidth, if_neg hwidth]
    by_cases hle : width ≤ c.remaining
    · have hwithin : c.position + width ≤ 8 * c.bytes.size := by
        have hlimit := c.limit_le
        have hposition := c.position_le
        rw [Cursor.remaining] at hle
        omega
      have hget : (get : Operate RawCursor) c.raw = .ok c.raw c.raw := rfl
      rw [dif_pos hle, bind_ok (by rw [check_raw, if_pos hle]; rfl), bind_ok hget,
        Cursor.raw_position, bind_ok (field_raw hwithin)]
      rfl
    · rw [dif_neg hle, bind_error (by rw [check_raw, if_neg hle]; rfl)]
      rfl

/-- What is computed from what was read leaves the cursor where it is. -/
theorem map_inPlace {α β : Type} {m : Operate α} {result : Except Error (α × Cursor)} (f : α → β)
    (h : m c.raw = c.inPlace result) :
    (m >>= fun a => pure (f a)) c.raw = c.inPlace (result.map fun (a, next) => (f a, next)) := by
  cases result with
  | error e =>
    rw [bind_error h]
    rfl
  | ok read =>
    rw [bind_ok h]
    rfl

theorem readSigned_raw (c : Cursor) (width : Nat) (order : ByteOrder) :
    readSigned width order c.raw = c.inPlace (c.readSigned width order) :=
  map_inPlace (Bits.signed width) (readUnsigned_raw c width order)

theorem readFloat_raw (c : Cursor) (exponentBits mantissaBits : Nat) (order : ByteOrder) :
    readFloat exponentBits mantissaBits order c.raw =
      c.inPlace (c.readFloat exponentBits mantissaBits order) := by
  unfold readFloat Cursor.readFloat
  generalize Bits.floatWidth exponentBits mantissaBits = total
  by_cases hsingle : total = 32
  · subst hsingle
    exact map_inPlace Binary64.ofBinary32 (readUnsigned_raw c 32 order)
  by_cases hdouble : total = 64
  · subst hdouble
    exact map_inPlace (fun value => (⟨UInt64.ofNat value⟩ : Binary64)) (readUnsigned_raw c 64 order)
  · simp only
    rfl

theorem beq_zero_ofNat_byteAt (bytes : ByteArray) (i : Nat) :
    (UInt8.ofNat (Bits.byteAt bytes i) == 0) = decide (Bits.byteAt bytes i = 0) := by
  rw [Bool.eq_iff_iff, beq_iff_eq, decide_eq_true_eq, ← UInt8.toNat_inj,
    Bits.toNat_ofNat_byteAt]
  rfl

/-- A zero byte is found at the same place among the bytes taken as in the buffer. -/
theorem findIdx?_slice (bytes : ByteArray) (stop first : Nat) :
    (Bits.slice bytes first (stop - first) []).findIdx? (· == 0) =
      (Bits.findZero bytes stop first).map fun last => last.1 - first := by
  have hfrom (stop first : Nat) :
      ∀ last, Bits.findZero bytes stop first = some last → first ≤ last.1 :=
    fun last h => (Bits.findZero_eq_some.1 h).1
  fun_induction Bits.findZero bytes stop first with
  | case1 first hfirst hzero =>
    have hcount : stop - first = (stop - first - 1) + 1 := by omega
    rw [hcount, Bits.slice_succ, List.findIdx?_cons, beq_zero_ofNat_byteAt, decide_eq_true hzero,
      if_pos rfl, Option.map_some, Nat.sub_self]
  | case2 first hfirst hzero ih =>
    have hcount : stop - first = (stop - (first + 1)) + 1 := by omega
    rw [hcount, Bits.slice_succ, List.findIdx?_cons, beq_zero_ofNat_byteAt, decide_eq_false hzero,
      if_neg (by decide), ih, Option.map_map]
    refine Option.map_congr fun last hlast => ?_
    have hle := hfrom stop (first + 1) last hlast
    simp only [Function.comp_apply]
    omega
  | case3 first hfirst =>
    have hnone : stop - first = 0 := by omega
    rw [hnone]
    rfl

theorem take_slice (bytes : ByteArray) (first : Nat) {length count : Nat} (h : length ≤ count) :
    (Bits.slice bytes first count []).take length = Bits.slice bytes first length [] := by
  rw [Bits.slice_eq, Bits.slice_eq, List.append_nil, List.append_nil, ← List.map_take,
    List.take_range, Nat.min_eq_left h]

theorem readString_raw (c : Cursor) : readString c.raw = c.inPlace c.readString := by
  have hget (c : Cursor) : (get : Operate RawCursor) c.raw = .ok c.raw c.raw := rfl
  unfold readString Cursor.readString
  rw [bind_ok (hget c)]
  cases halign : c.align 8 with
  | error e =>
    rw [bind_error (by rw [align_raw, halign]; rfl)]
    rfl
  | ok next =>
    obtain ⟨hbytes, hlimit, hposition, -⟩ := Cursor.advance_eq_ok halign
    have hwhole := Cursor.dvd_padding c.position
    have hstop : max (next.limit / 8) (next.position / 8) ≤ next.bytes.size := by
      have := next.limit_le
      have := next.position_le
      omega
    have hcount : max (next.limit / 8) (next.position / 8) - next.position / 8 =
        c.limit / 8 - next.position / 8 := by
      rw [hlimit]
      omega
    have hslice := slice_raw (c := next) (Nat.le_max_right _ _) hstop
    rw [hcount, hbytes] at hslice
    rw [bind_ok (by rw [align_raw, halign]; rfl), bind_ok (hget next)]
    simp only [Cursor.raw_limit, Cursor.raw_position]
    rw [bind_ok hslice, findIdx?_slice]
    cases hfound : Bits.findZero c.bytes (c.limit / 8) (next.position / 8) with
    | none =>
      show EStateM.Result.error _ _ = EStateM.Result.error _ _
      simp [Cursor.raw, hbytes, hlimit]
    | some last =>
      obtain ⟨hle, -⟩ := Bits.findZero_eq_some.1 hfound
      have hend : next.position + 8 * (last.1 - next.position / 8 + 1) = 8 * (last.1 + 1) := by
        omega
      have hlength : last.1 - next.position / 8 ≤ c.limit / 8 - next.position / 8 :=
        Nat.sub_le_sub_right (Nat.le_of_lt last.2) _
      show EStateM.Result.ok _ _ = EStateM.Result.ok _ _
      rw [take_slice _ _ hlength, hend]
      simp [Cursor.raw, Cursor.moveTo, hbytes, hlimit]

end RawCursor

end CommonTrace
