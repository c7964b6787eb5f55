import CommonTrace.Text.Keyword

/-!
# Byte order

The order of the bytes of a field also decides the order of its bits: fields of
little endian traces fill each byte from its least significant bit, fields of big
endian traces from its most significant bit.
-/
namespace CommonTrace

/-- The order in which the bytes and bits of a field are stored. -/
inductive ByteOrder where
  | little
  | big
  deriving DecidableEq, Repr

namespace ByteOrder

/-- The order meant when none is named. -/
def native : ByteOrder := .little

instance : Inhabited ByteOrder := ⟨native⟩

/-- The short name of an order. -/
def name : ByteOrder → String
  | little => "le"
  | big => "be"

/-- Reads the name of an order. -/
def parse (text : String) : Except Text.UnknownWord ByteOrder :=
  let word := Text.keyword text
  if word ∈ ["le", "little", "little-endian"] then .ok little
  else if word ∈ ["be", "big", "big-endian", "network"] then .ok big
  else if word = "native" then .ok native
  else .error ⟨.byteOrder, text⟩

end ByteOrder

end CommonTrace
