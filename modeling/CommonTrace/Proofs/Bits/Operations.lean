import CommonTrace.Proofs.Bits.InPlace

/-!
# Any operations on a cursor

Whatever operations are made on a cursor, one after the other and whether they fail or not, its
position and its limit stay within the buffer, though the limit may be set before the position. An
operation that fails leaves the cursor where it was, and none looks up a byte outside the buffer.
When an operation fails is told by the position and the limit: a number needs its bits before the
limit, an alignment its next multiple, unless the cursor is there, and a position has to be within
the limit.
-/
namespace CommonTrace

namespace Cursor

/-- An operation on a cursor. -/
inductive Operation where
  | seek (target : Nat)
  | align (alignment : Nat)
  | withLimit (bits : Nat)
  | readUnsigned (width : Nat) (order : ByteOrder)
  | readSigned (width : Nat) (order : ByteOrder)
  | readFloat (exponentBits mantissaBits : Nat) (order : ByteOrder)
  | readString

/-- What an operation answers. -/
inductive Answer where
  | done
  | unsigned (value : Nat)
  | signed (value : Int)
  | float (value : Binary64)
  | text (value : String)

namespace Operation

/-- Makes an operation on a cursor. -/
def perform (c : Cursor) : Operation → Except Error (Answer × Cursor)
  | seek target => (c.seek target).map fun next => (.done, next)
  | align alignment => (c.align alignment).map fun next => (.done, next)
  | withLimit bits => .ok (.done, c.withLimit bits)
  | readUnsigned width order =>
    (c.readUnsigned width order).map fun (value, next) => (.unsigned value, next)
  | readSigned width order =>
    (c.readSigned width order).map fun (value, next) => (.signed value, next)
  | readFloat exponentBits mantissaBits order =>
    (c.readFloat exponentBits mantissaBits order).map fun (value, next) => (.float value, next)
  | readString => c.readString.map fun (value, next) => (.text value, next)

/-- Makes an operation on a cursor that is moved in place. -/
def run : Operation → Operate Answer
  | seek target => RawCursor.seek target >>= fun _ => return .done
  | align alignment => RawCursor.align alignment >>= fun _ => return .done
  | withLimit bits => RawCursor.withLimit bits >>= fun _ => return .done
  | readUnsigned width order => return .unsigned (← RawCursor.readUnsigned width order)
  | readSigned width order => return .signed (← RawCursor.readSigned width order)
  | readFloat exponentBits mantissaBits order =>
    return .float (← RawCursor.readFloat exponentBits mantissaBits order)
  | readString => return .text (← RawCursor.readString)

/-- The bits that a number takes which is read; a floating point value has 32 or 64 bits. -/
def width? : Operation → Option Nat
  | readUnsigned width _ | readSigned width _ =>
    if 0 < width ∧ width ≤ 64 then some width else none
  | readFloat exponentBits mantissaBits _ =>
    let width := Bits.floatWidth exponentBits mantissaBits
    if width = 32 ∨ width = 64 then some width else none
  | _ => none

/-- Whether an operation reads something. -/
def Reads : Operation → Prop
  | readUnsigned _ _ | readSigned _ _ | readFloat _ _ _ | readString => True
  | _ => False

variable {c c' : Cursor} {op : Operation} {answer : Answer} {width : Nat}

/-- In place, an operation does what it does on cursors. -/
theorem run_raw (op : Operation) (c : Cursor) : op.run c.raw = c.inPlace (op.perform c) := by
  have hmap {result : Except Error Cursor} :
      (result.map fun next => ((), next)).map (fun (_, next) => (Answer.done, next)) =
        result.map fun next => (Answer.done, next) := by
    cases result <;> rfl
  cases op with
  | seek target =>
    rw [perform, ← hmap]
    exact RawCursor.map_inPlace (fun _ => Answer.done) (RawCursor.seek_raw c target)
  | align alignment =>
    rw [perform, ← hmap]
    exact RawCursor.map_inPlace (fun _ => Answer.done) (RawCursor.align_raw c alignment)
  | withLimit bits =>
    exact RawCursor.map_inPlace (fun _ => Answer.done) (RawCursor.withLimit_raw c bits)
  | readUnsigned width order =>
    exact RawCursor.map_inPlace Answer.unsigned (RawCursor.readUnsigned_raw c width order)
  | readSigned width order =>
    exact RawCursor.map_inPlace Answer.signed (RawCursor.readSigned_raw c width order)
  | readFloat exponentBits mantissaBits order =>
    exact RawCursor.map_inPlace Answer.float
      (RawCursor.readFloat_raw c exponentBits mantissaBits order)
  | readString => exact RawCursor.map_inPlace Answer.text (RawCursor.readString_raw c)

/-- A cursor in the same buffer and with the same limit as another, which it is within. -/
structure Within (c c' : Cursor) : Prop where
  bytes : c'.bytes = c.bytes
  limit : c'.limit = c.limit
  position_le : c'.position ≤ c.limit

theorem within_of_readUnsigned {order : ByteOrder} {raw : Nat}
    (h : c.readUnsigned width order = .ok (raw, c')) : Within c c' := by
  obtain ⟨hpos, -, -, hadvance⟩ := readUnsigned_eq_ok h
  obtain ⟨hbytes, hlimit, hposition, hle⟩ := advance_eq_ok hadvance
  rw [remaining] at hle
  exact ⟨hbytes, hlimit, by omega⟩

/-- What is read ends within the limit, wherever it starts. -/
theorem within_of_reads (hop : op.Reads) (h : op.perform c = .ok (answer, c')) : Within c c' := by
  cases op with
  | readUnsigned width order =>
    obtain ⟨⟨raw, next⟩, hraw, ⟨⟩⟩ := map_eq_ok h
    exact within_of_readUnsigned hraw
  | readSigned width order =>
    obtain ⟨⟨value, next⟩, hvalue, ⟨⟩⟩ := map_eq_ok h
    obtain ⟨⟨raw, next⟩, hraw, ⟨⟩⟩ := map_eq_ok hvalue
    exact within_of_readUnsigned hraw
  | readFloat exponentBits mantissaBits order =>
    obtain ⟨⟨value, next⟩, hvalue, ⟨⟩⟩ := map_eq_ok h
    obtain ⟨raw, hraw⟩ := readFloat_eq_ok hvalue
    exact within_of_readUnsigned hraw
  | readString =>
    obtain ⟨⟨text, next⟩, htext, ⟨⟩⟩ := map_eq_ok h
    obtain ⟨last, hends, -, hbytes, hlimit, hposition⟩ := readString_eq_ok htext
    exact ⟨hbytes, hlimit, hposition ▸ hends.within⟩
  | _ => exact hop.elim

/-- No operation changes the buffer. -/
theorem bytes_of_perform (h : op.perform c = .ok (answer, c')) : c'.bytes = c.bytes := by
  cases op with
  | seek target =>
    obtain ⟨next, hseek, ⟨⟩⟩ := map_eq_ok h
    unfold Cursor.seek at hseek
    split at hseek
    · cases hseek
      rfl
    · cases hseek
  | align alignment =>
    obtain ⟨next, halign, ⟨⟩⟩ := map_eq_ok h
    exact (advance_eq_ok halign).1
  | withLimit bits =>
    cases h
    rfl
  | _ =>
    refine (within_of_reads ?_ h).bytes
    exact trivial

/-- A number is answered if the cursor can advance by the bits that it takes. -/
theorem perform_of_width (h : op.width? = some width) :
    ∃ answer, op.perform c = (c.advance width).map fun next => (answer, next) := by
  have hunsigned {width : Nat} {order : ByteOrder} (hwidth : 0 < width ∧ width ≤ 64) :
      c.readUnsigned width order = (c.advance width).map fun next =>
        (Bits.field order c.bytes c.position width, next) :=
    if_neg (by omega)
  cases op with
  | readUnsigned width order =>
    obtain ⟨hwidth, ⟨⟩⟩ := Option.ite_none_right_eq_some.1 h
    refine ⟨.unsigned (Bits.field order c.bytes c.position width), ?_⟩
    rw [perform, hunsigned hwidth]
    cases c.advance width <;> rfl
  | readSigned width order =>
    obtain ⟨hwidth, ⟨⟩⟩ := Option.ite_none_right_eq_some.1 h
    refine ⟨.signed (Bits.signed width (Bits.field order c.bytes c.position width)), ?_⟩
    rw [perform, Cursor.readSigned, hunsigned hwidth]
    cases c.advance width <;> rfl
  | readFloat exponentBits mantissaBits order =>
    obtain ⟨hwidth, ⟨⟩⟩ := Option.ite_none_right_eq_some.1 h
    rw [perform, Cursor.readFloat]
    rcases hwidth with hwidth | hwidth
    · refine ⟨.float (.ofBinary32 (Bits.field order c.bytes c.position 32)), ?_⟩
      simp only [hwidth, hunsigned (show 0 < 32 ∧ 32 ≤ 64 by decide)]
      cases c.advance 32 <;> rfl
    · refine ⟨.float ⟨UInt64.ofNat (Bits.field order c.bytes c.position 64)⟩, ?_⟩
      simp only [hwidth, hunsigned (show 0 < 64 ∧ 64 ≤ 64 by decide)]
      cases c.advance 64 <;> rfl
  | _ => cases h

end Operation

namespace Operation

variable {c : Cursor} {op : Operation} {stop : Stop} {answer : Answer} {raw : RawCursor}
  {width bits : Nat}

theorem run_eq_ok : op.run c.raw = .ok answer raw ↔
    ∃ next, op.perform c = .ok (answer, next) ∧ raw = next.raw := by
  rw [run_raw, inPlace_eq_ok]

theorem run_eq_error : op.run c.raw = .error stop raw ↔
    ∃ e, op.perform c = .error e ∧ stop = .failure e ∧ raw = c.raw := by
  rw [run_raw, inPlace_eq_error]

/-- Advancing succeeds if and only if the bits are left, and fails in one way. -/
theorem advance_cases (c : Cursor) (bits : Nat) :
    (bits ≤ c.remaining ∧ ∃ next, c.advance bits = .ok next ∧
      next.raw = { c.raw with position := c.position + bits }) ∨
    (c.remaining < bits ∧ c.advance bits = .error (c.overrun bits)) := by
  unfold advance
  by_cases h : bits ≤ c.remaining
  · rw [dif_pos h]
    exact .inl ⟨h, _, rfl, rfl⟩
  · rw [dif_neg h]
    exact .inr ⟨Nat.not_le.1 h, rfl⟩

/-- A number is refused if and only if its bits are not left, and then tells how many are. -/
theorem run_number (hwidth : op.width? = some width) :
    op.run c.raw = .error stop raw ↔ c.remaining < width ∧
      stop = .failure (c.overrun width) ∧ raw = c.raw := by
  obtain ⟨answer, hperform⟩ := perform_of_width (c := c) hwidth
  rw [run_eq_error, hperform]
  rcases advance_cases c width with ⟨hle, next, hadvance, -⟩ | ⟨hlt, hadvance⟩
  · simp [hadvance, Except.map, hle]
  · simp [hadvance, Except.map, hlt]

theorem run_align {alignment : Nat} (hpos : 0 < alignment) :
    ∃ target, IsLeast {i | c.position ≤ i ∧ alignment ∣ i} target ∧ ∀ answer raw,
      (align alignment).run c.raw = .ok answer raw ↔
        (target = c.position ∨ target ≤ c.limit) ∧ answer = .done ∧
          raw = { c.raw with position := target } := by
  refine ⟨_, isLeast_padding c.position hpos, fun answer raw => ?_⟩
  rw [run_eq_ok, perform, Cursor.align]
  rcases advance_cases c (padding c.position alignment) with
    ⟨hle, next, hadvance, hnext⟩ | ⟨hlt, hadvance⟩
  · have hroom : c.position + padding c.position alignment = c.position ∨
        c.position + padding c.position alignment ≤ c.limit := by
      rw [remaining] at hle
      omega
    rw [hadvance]
    constructor
    · rintro ⟨_, ⟨⟩, rfl⟩
      exact ⟨hroom, rfl, hnext⟩
    · rintro ⟨-, rfl, rfl⟩
      exact ⟨next, rfl, hnext.symm⟩
  · have hroom : ¬(c.position + padding c.position alignment = c.position ∨
        c.position + padding c.position alignment ≤ c.limit) := by
      rw [remaining] at hlt
      omega
    rw [hadvance]
    constructor
    · rintro ⟨_, ⟨⟩, -⟩
    · rintro ⟨hfits, -⟩
      exact absurd hfits hroom

theorem run_seek {target : Nat} : (seek target).run c.raw = .ok answer raw ↔
    target ≤ c.limit ∧ answer = .done ∧ raw = { c.raw with position := target } := by
  rw [run_eq_ok, perform, Cursor.seek]
  by_cases h : target ≤ c.limit
  · rw [dif_pos h]
    simp [Except.map, h, moveTo, Cursor.raw, eq_comm]
  · rw [dif_neg h]
    simp [Except.map, h]

end Operation

/-- What operations do from some position and limit. -/
structure Behaves (c : RawCursor) : Prop where
  limit_le : c.limit ≤ 8 * c.bytes.size
  position_le : c.position ≤ 8 * c.bytes.size
  inside : ∀ (op : Operation) index c', op.run c ≠ .error (.outside index) c'
  unmoved : ∀ (op : Operation) stop c', op.run c = .error stop c' → c' = c
  number : ∀ (op : Operation) width, op.width? = some width → ∀ stop c',
    op.run c = .error stop c' ↔ c.limit - c.position < width ∧
      stop = .failure (.bufferOverrun c.position width (c.limit - c.position)) ∧ c' = c
  align : ∀ alignment, 0 < alignment →
    ∃ target, IsLeast {i | c.position ≤ i ∧ alignment ∣ i} target ∧ ∀ answer c',
      (Operation.align alignment).run c = .ok answer c' ↔
        (target = c.position ∨ target ≤ c.limit) ∧ answer = .done ∧
          c' = { c with position := target }
  seek : ∀ target answer c', (Operation.seek target).run c = .ok answer c' ↔
    target ≤ c.limit ∧ answer = .done ∧ c' = { c with position := target }
  within : ∀ (op : Operation) answer c', op.Reads → op.run c = .ok answer c' →
    c'.position ≤ c.limit ∧ c'.limit = c.limit

theorem behaves_raw (c : Cursor) : Behaves c.raw where
  limit_le := c.limit_le
  position_le := c.position_le
  inside op index raw h := by
    obtain ⟨e, -, hstop, -⟩ := Operation.run_eq_error.1 h
    cases hstop
  unmoved op stop raw h := by
    obtain ⟨e, -, -, hraw⟩ := Operation.run_eq_error.1 h
    exact hraw
  number op width hwidth stop raw := Operation.run_number hwidth
  align alignment hpos := Operation.run_align hpos
  seek target answer raw := Operation.run_seek
  within op answer raw hop h := by
    obtain ⟨next, hperform, rfl⟩ := Operation.run_eq_ok.1 h
    have hwithin := Operation.within_of_reads hop hperform
    exact ⟨hwithin.position_le, hwithin.limit⟩

/-- Where an operation leaves a cursor, be it with an answer or not. -/
def Operation.after (raw : RawCursor) (op : Operation) : RawCursor :=
  match op.run raw with
  | .ok _ raw' => raw'
  | .error _ raw' => raw'

/-- Where operations lead from the start of a buffer, each made where the one before has left the
cursor. -/
def reached (bytes : ByteArray) (ops : List Operation) : RawCursor :=
  ops.foldl Operation.after ⟨bytes, 8 * bytes.size, 0⟩

theorem after_raw (c : Cursor) (op : Operation) :
    ∃ c' : Cursor, c'.bytes = c.bytes ∧ Operation.after c.raw op = c'.raw := by
  unfold Operation.after
  rw [Operation.run_raw]
  cases hperform : op.perform c with
  | error e => exact ⟨c, rfl, rfl⟩
  | ok result => exact ⟨result.2, Operation.bytes_of_perform hperform, rfl⟩

/-- Operations lead from cursor to cursor. -/
theorem foldl_after (ops : List Operation) (c : Cursor) :
    ∃ c' : Cursor, c'.bytes = c.bytes ∧ ops.foldl Operation.after c.raw = c'.raw := by
  induction ops generalizing c with
  | nil => exact ⟨c, rfl, rfl⟩
  | cons op ops ih =>
    obtain ⟨next, hnext, hafter⟩ := after_raw c op
    obtain ⟨c', hbytes, hfoldl⟩ := ih next
    exact ⟨c', hbytes.trans hnext, by rw [List.foldl_cons, hafter, hfoldl]⟩

/-- Whatever operations have been made on a buffer, each further one does what it does on a cursor
in this buffer. The position and the limit are within the buffer, no byte is looked up outside, a
failure moves nothing, and each kind of operation fails exactly where it has to. -/
theorem behaves_reached (bytes : ByteArray) (ops : List Operation) :
    ∃ c : Cursor, c.bytes = bytes ∧ reached bytes ops = c.raw ∧
      (∀ op : Operation, op.run (reached bytes ops) = c.inPlace (op.perform c)) ∧
      Behaves (reached bytes ops) := by
  obtain ⟨c, hbytes, hreached⟩ := foldl_after ops (ofBytes bytes)
  have hraw : reached bytes ops = c.raw := hreached
  rw [hraw]
  exact ⟨c, hbytes, rfl, fun op => op.run_raw c, behaves_raw c⟩

/-- A text that does not end within the limit leaves the cursor within a byte. -/
example :
    (reached ⟨#[7, 0, 9]⟩ [.readUnsigned 4 .little, .withLimit 12, .readString]).position = 4 := by
  decide +kernel

end Cursor

end CommonTrace
