import CommonTrace.Proofs.Packet.Building

/-!
# The preamble of an indexed packet

The preamble of a packet that has been indexed is decoded once more from the packet's own
bytes, within its content. That it was found in a window of another length makes no
difference: the content does not end before the preamble does.
-/
namespace CommonTrace

open Decoding

namespace Bits

/-- Extracts that start at the same byte are the same as far as both go. -/
theorem sameBelow_extract {bytes : ByteArray} {start stop stop' n : Nat}
    (h : n ≤ 8 * (bytes.extract start stop).size) (h' : n ≤ 8 * (bytes.extract start stop').size) :
    SameBelow n (bytes.extract start stop) (bytes.extract start stop') := by
  intro i hi
  rw [ByteArray.size_extract] at h h'
  rw [byteAt_extract, byteAt_extract, if_pos (by omega), if_pos (by omega)]

end Bits

namespace Preamble

variable {metadata : Metadata} {offset : Nat} {preamble : Preamble} {s s' : Decoding}
  {c c' : StreamClass} {id : Option Nat}

/-- A class is found by its own number, also where it is the only one. -/
theorem stream?_of_classOf (h : classOf metadata id = .ok c) : metadata.stream? c.id = some c := by
  have hstream {n : Nat} (h : metadata.stream n = .ok c) : metadata.stream? c.id = some c := by
    unfold Metadata.stream at h
    split at h
    next found hfound =>
      cases h
      have hid := List.find?_some hfound
      rw [eq_of_beq hid]
      exact hfound
    · cases h
  cases id with
  | some n => exact hstream h
  | none =>
    unfold classOf Metadata.singleStream at h
    dsimp only at h
    split at h
    next found hstreams =>
      cases h
      rw [Metadata.stream?, hstreams]
      simp
    · exact hstream h

theorem decodeContext_eq_ok (h : decodeContext metadata id s = .ok preamble s') :
    classOf metadata id = .ok preamble.streamClass ∧
      preamble.payloadStart = s'.cursor.position := by
  unfold decodeContext at h
  obtain ⟨streamClass, s₁, hclass, h⟩ := bind_eq_ok h
  obtain ⟨context, s₂, -, h⟩ := bind_eq_ok h
  obtain ⟨payloadStart, s₃, hposition, h⟩ := bind_eq_ok h
  cases hposition
  cases h
  exact ⟨(lift_eq_ok hclass).1, rfl⟩

/-- What a preamble tells: a class that is declared, and where decoding it has ended. -/
theorem decode_eq_ok (h : decode metadata offset s = .ok preamble s') :
    metadata.stream? preamble.streamClass.id = some preamble.streamClass ∧
      preamble.payloadStart = s'.cursor.position := by
  have hcontext {id : Option Nat} {s₁ : Decoding}
      (h : decodeContext metadata id s₁ = .ok preamble s') :
      metadata.stream? preamble.streamClass.id = some preamble.streamClass ∧
        preamble.payloadStart = s'.cursor.position := by
    obtain ⟨hclass, hposition⟩ := decodeContext_eq_ok h
    exact ⟨stream?_of_classOf hclass, hposition⟩
  unfold decode at h
  obtain ⟨header, s₁, -, h⟩ := bind_eq_ok h
  cases header with
  | none => exact hcontext h
  | some header =>
    obtain ⟨id, s₂, -, h⟩ := bind_eq_ok h
    exact hcontext h

end Preamble

/-- The bytes of a packet are as many as its entry tells. -/
theorem PacketEntry.Fits.size_extract {file : ByteArray} {entry : PacketEntry}
    (h : entry.Fits file.size) :
    (file.extract entry.offset entry.nextOffset).size = entry.byteSize := by
  rw [ByteArray.size_extract, Nat.min_eq_left h.nextOffset_le, PacketEntry.nextOffset,
    Nat.add_sub_cancel_left]

/-- A preamble that ends where the events of an entry start is decoded in the same way from the
content of the packet, wherever the extract of the file ended from which it was decoded before. -/
theorem PacketEntry.Fits.decode {metadata : Metadata} {file : ByteArray} {entry : PacketEntry}
    {stop : Nat} {scopes : ScopeTree} {preamble : Preamble} {s : Decoding}
    (h : entry.Fits file.size)
    (hrun : Preamble.decode metadata entry.offset
      ⟨.ofBytes (file.extract entry.offset stop), scopes⟩ = .ok preamble s)
    (hpayload : preamble.payloadStart = entry.payloadStart) :
    ∃ cursor, Preamble.decode metadata entry.offset
      ⟨(Cursor.ofBytes (file.extract entry.offset entry.nextOffset)).withLimit entry.contentSize,
        scopes⟩ = .ok preamble ⟨cursor, s.scopes⟩ := by
  have hsize := h.size_extract
  have hcontent : entry.payloadStart ≤ 8 * entry.byteSize := by
    have := h.payload_le
    have := h.content_le
    rw [PacketEntry.byteSize]
    omega
  have hwindow := (Preamble.steps_decode metadata entry.offset).notBefore
    ⟨.ofBytes (file.extract entry.offset stop), scopes⟩
  rw [hrun, final_ok] at hwindow
  have hend : s.cursor.position = entry.payloadStart := by
    rw [← (Preamble.decode_eq_ok hrun).2, hpayload]
  have hle := s.cursor.position_le
  rw [hwindow.1, hend] at hle
  obtain ⟨cursor, hcursor, -⟩ := (Preamble.steps_decode metadata entry.offset).bounded hrun
    (d := (Cursor.ofBytes (file.extract entry.offset entry.nextOffset)).withLimit
      entry.contentSize) rfl
    (.inl (by
      rw [hend]
      exact Nat.le_min.2 ⟨h.payload_le, by rwa [Cursor.ofBytes, hsize]⟩))
    (by
      rw [hend]
      exact Bits.sameBelow_extract hle (by rwa [hsize]))
  exact ⟨cursor, hcursor⟩

/-- The preamble of an indexed packet is decoded from its content as it was found. -/
theorem Metadata.Describes.decode {metadata : Metadata} {file : ByteArray} {entry : PacketEntry}
    (h : metadata.Describes file entry) :
    ∃ preamble s, Preamble.decode metadata entry.offset
      ⟨(Cursor.ofBytes (file.extract entry.offset entry.nextOffset)).withLimit entry.contentSize,
        metadata.baseScopes⟩ = .ok preamble s ∧
      metadata.stream? preamble.streamClass.id = some preamble.streamClass ∧
      preamble.payloadStart = entry.payloadStart ∧ preamble.streamClass.id = entry.streamId := by
  obtain ⟨preamble, ⟨window, s, hrun⟩, hpayload, hid⟩ := h.preamble
  obtain ⟨cursor, hcursor⟩ := h.toFits.decode hrun hpayload
  exact ⟨preamble, _, hcursor, (Preamble.decode_eq_ok hrun).1, hpayload, hid⟩

end CommonTrace
