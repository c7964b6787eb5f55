import CommonTrace.ByteOrder

/-!
# Bit fields

A field of `width` bits starting at bit `position` is the number formed by its bits, of
which the first is the least significant one in little endian order and the most
significant one in big endian order. A field of whole bytes is read byte by byte, any
other bit by bit.
-/
namespace CommonTrace.Bits

/-- A byte of a buffer, zero beyond its end. -/
def byteAt (bytes : ByteArray) (i : Nat) : Nat :=
  if h : i < bytes.size then bytes[i].toNat else 0

/-- The bit at a position: counted from the least significant bit of each byte in little
endian order, from the most significant one in big endian order. -/
def bit (order : ByteOrder) (bytes : ByteArray) (position : Nat) : Nat :=
  match order with
  | .little => byteAt bytes (position / 8) / Nat.pow 2 (position % 8) % 2
  | .big => byteAt bytes (position / 8) / Nat.pow 2 (7 - position % 8) % 2

/-- The number formed by `count` bits from `position` on, read one by one. -/
def bitsValue (order : ByteOrder) (bytes : ByteArray) (position : Nat) : Nat → Nat
  | 0 => 0
  | count + 1 =>
    match order with
    | .little =>
      bitsValue order bytes position count ||| bit order bytes (position + count) <<< count
    | .big => bitsValue order bytes position count <<< 1 ||| bit order bytes (position + count)

/-- The bytes of a buffer from `first` on, `count` of them, in front of `rest`. -/
def slice (bytes : ByteArray) (first : Nat) : Nat → List UInt8 → List UInt8
  | 0, rest => rest
  | count + 1, rest => slice bytes first count (UInt8.ofNat (byteAt bytes (first + count)) :: rest)

/-- The number formed by `count` bytes from `first` on, put together from the most
significant one on. -/
def bytesValue (order : ByteOrder) (bytes : ByteArray) (first count : Nat) : Nat :=
  let taken := slice bytes first count []
  match order with
  | .little => taken.foldr (fun byte value => value <<< 8 ||| byte.toNat) 0
  | .big => taken.foldl (fun value byte => value <<< 8 ||| byte.toNat) 0

/-- The unsigned value of a bit field. -/
def field (order : ByteOrder) (bytes : ByteArray) (position width : Nat) : Nat :=
  if position % 8 = 0 ∧ width % 8 = 0 then
    bytesValue order bytes (position / 8) (width / 8)
  else bitsValue order bytes position width

/-- The two's complement reading of an unsigned value of the given width, which is put at
the upper end of a 64-bit word and moved back with its sign. -/
def signed (width value : Nat) : Int :=
  ((BitVec.ofNat 64 value <<< (64 - width)).sshiftRight (64 - width)).toInt

/-- The width of a floating point value, given those of its exponent and of its significand: the
sum of two 32-bit numbers, which wraps. -/
def floatWidth (exponentBits mantissaBits : Nat) : Nat :=
  (exponentBits + mantissaBits) % UInt32.size

/-- The first zero byte at or after `i` and before `stop`. -/
def findZero (bytes : ByteArray) (stop i : Nat) : Option { j : Nat // j < stop } :=
  if h : i < stop then
    if byteAt bytes i = 0 then some ⟨i, h⟩ else findZero bytes stop (i + 1)
  else none
termination_by stop - i

end CommonTrace.Bits
