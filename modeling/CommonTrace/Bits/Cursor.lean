import CommonTrace.Bits.Field
import CommonTrace.Error
import CommonTrace.Number.Binary64
import CommonTrace.Text.Lossy

/-!
# Bit cursors

A cursor reads a buffer at one bit position up to a limit. Every operation either
yields the cursor moved past what it read or fails without one, so a failed
operation moves nothing. Position and limit never exceed the buffer; the limit can
lie below the position, which leaves nothing to read.
-/
namespace CommonTrace

/-- A position in the bits of a buffer, with a limit to what may be read. -/
structure Cursor where
  bytes : ByteArray
  limit : Nat
  position : Nat
  limit_le : limit ≤ 8 * bytes.size
  position_le : position ≤ 8 * bytes.size

namespace Cursor

/-- The start of a buffer, all of which may be read. -/
def ofBytes (bytes : ByteArray) : Cursor :=
  ⟨bytes, 8 * bytes.size, 0, Nat.le_refl _, Nat.zero_le _⟩

/-- The same position with another limit, at most the end of the buffer. -/
def withLimit (c : Cursor) (bits : Nat) : Cursor :=
  { c with limit := min bits (8 * c.bytes.size), limit_le := Nat.min_le_right _ _ }

/-- How many bits may still be read. -/
def remaining (c : Cursor) : Nat := c.limit - c.position

/-- The failure to go `requested` bits further. -/
def overrun (c : Cursor) (requested : Nat) : Error :=
  .bufferOverrun c.position requested c.remaining

/-- The cursor at a position within the limit. -/
def moveTo (c : Cursor) (position : Nat) (h : position ≤ c.limit) : Cursor :=
  { c with position := position, position_le := Nat.le_trans h c.limit_le }

/-- Moves to a position. -/
def seek (c : Cursor) (position : Nat) : Except Error Cursor :=
  if h : position ≤ c.limit then .ok (c.moveTo position h)
  else .error (c.overrun (position - c.position))

/-- Moves `bits` further, which must be within the limit. -/
def advance (c : Cursor) (bits : Nat) : Except Error Cursor :=
  if h : bits ≤ c.remaining then
    .ok { c with
      position := c.position + bits
      position_le := by
        have := c.limit_le
        have := c.position_le
        unfold remaining at h
        omega }
  else .error (c.overrun bits)

/-- How many bits lie between a position and the next multiple of an alignment. -/
def padding (position alignment : Nat) : Nat :=
  (alignment - position % alignment) % alignment

/-- Moves to the next multiple of an alignment. A cursor already there stays, wherever
its limit is. -/
def align (c : Cursor) (alignment : Nat) : Except Error Cursor :=
  c.advance (padding c.position alignment)

/-- Reads an unsigned integer of 1 to 64 bits. -/
def readUnsigned (c : Cursor) (width : Nat) (order : ByteOrder) : Except Error (Nat × Cursor) :=
  if width = 0 ∨ 64 < width then .error (.malformed (.integerWidth width))
  else (c.advance width).map fun next => (Bits.field order c.bytes c.position width, next)

/-- Reads a two's complement integer of 1 to 64 bits. -/
def readSigned (c : Cursor) (width : Nat) (order : ByteOrder) : Except Error (Int × Cursor) :=
  (c.readUnsigned width order).map fun (value, next) => (Bits.signed width value, next)

/-- Reads a floating point value of 32 or 64 bits, given the widths of its exponent and
of its significand, the leading bit counted. -/
def readFloat (c : Cursor) (exponentBits mantissaBits : Nat) (order : ByteOrder) :
    Except Error (Binary64 × Cursor) :=
  match Bits.floatWidth exponentBits mantissaBits with
  | 32 => (c.readUnsigned 32 order).map fun (value, next) => (.ofBinary32 value, next)
  | 64 => (c.readUnsigned 64 order).map fun (value, next) => (⟨UInt64.ofNat value⟩, next)
  | width => .error (.malformed (.floatWidth width))

/-- Reads a text that ends with a zero byte, from the next byte boundary on, and moves
past the zero byte. -/
def readString (c : Cursor) : Except Error (String × Cursor) :=
  match c.align 8 with
  | .error e => .error e
  | .ok start =>
    let first := start.position / 8
    match Bits.findZero c.bytes (c.limit / 8) first with
    | some ⟨last, h⟩ =>
      .ok (Text.lossy (Bits.slice c.bytes first (last - first) []),
        c.moveTo (8 * (last + 1)) (by omega))
    | none =>
      let available := c.limit - start.position
      .error (.bufferOverrun c.position (available + 8) available)

end Cursor

end CommonTrace
