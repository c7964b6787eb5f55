import CommonTrace.Number.Total
import CommonTrace.Packet.Entry

/-!
# Packet indexes

The packets of a file in order. Packets begin in the order of the file; a packet whose
end was not known ends where the next one begins.
-/
namespace CommonTrace

/-- The packets of a file. -/
structure PacketIndex where
  entries : Array PacketEntry := #[]

namespace PacketIndex

/-- Adds the next packet. -/
def append (index : PacketIndex) (entry : PacketEntry) : Except Error PacketIndex :=
  match index.entries.back? with
  | none => .ok ⟨index.entries.push entry⟩
  | some last =>
    if entry.timestampBegin < last.timestampBegin then
      .error (.packetOrder entry.offset entry.timestampBegin last.timestampBegin)
    else if last.isOpenEnded then
      .ok ⟨(index.entries.pop.push { last with timestampEnd := entry.timestampBegin }).push entry⟩
    else .ok ⟨index.entries.push entry⟩

/-- Whether a packet ends before a time; there is no packet beyond the last. -/
def endsBefore (index : PacketIndex) (timestamp i : Nat) : Bool :=
  match index.entries[i]? with
  | some entry => entry.timestampEnd < timestamp
  | none => false

/-- Halves the range of `size` places from `base` on until one is left: the upper half is
kept if its first place satisfies `below`, the lower half otherwise. -/
def bisect (below : Nat → Bool) (base size : Nat) : Nat :=
  if size ≤ 1 then base
  else
    let half := size / 2
    bisect below (if below (base + half) then base + half else base) (size - half)
termination_by size

/-- The first packet that does not end before a time, found by bisection. -/
def search (index : PacketIndex) (timestamp : Nat) : Option Nat :=
  let below := index.endsBefore timestamp
  let base := bisect below 0 index.entries.size
  let place := if below base then base + 1 else base
  if place < index.entries.size then some place else none

/-- The time at which the first packet begins. -/
def timestampBegin? (index : PacketIndex) : Option Nat :=
  index.entries[0]?.map (·.timestampBegin)

/-- The time at which the last packet ends. -/
def timestampEnd? (index : PacketIndex) : Option Nat :=
  index.entries.back?.map (·.timestampEnd)

/-- The events lost before all packets. -/
def lostEvents (index : PacketIndex) : Nat :=
  total (index.entries.toList.map (·.lostEvents))

end PacketIndex

end CommonTrace
