import CommonTrace.Proofs.Decoding.Growth

/-!
# What decoding a value depends on

A value is decoded in the same way in any two buffers that agree on the bytes which decoding it
takes, whatever follows them and wherever the limits are, as long as there is room for the value. A
failure that is not for want of bits is the same in every longer buffer.
-/
namespace CommonTrace

namespace Bits

variable {bytes bytes' : ByteArray} {n stop : Nat}

/-- The first bytes of a buffer are kept by what they are extracted to. -/
theorem sameBelow_of_extract (h : bytes'.extract 0 n = bytes.extract 0 n) (hstop : stop ≤ 8 * n)
    (hbytes : stop ≤ 8 * bytes.size) (hbytes' : stop ≤ 8 * bytes'.size) :
    SameBelow stop bytes bytes' := by
  intro i hi
  have hextract := congrArg (byteAt · i) h
  rw [byteAt_extract, byteAt_extract, if_pos (by omega), if_pos (by omega), Nat.zero_add]
    at hextract
  exact hextract.symm

theorem byteAt_append {rest : ByteArray} {i : Nat} (h : i < bytes.size) :
    byteAt (bytes ++ rest) i = byteAt bytes i := by
  have happend : i < (bytes ++ rest).size := by
    rw [ByteArray.size_append]
    omega
  unfold byteAt
  rw [dif_pos happend, dif_pos h, ByteArray.getElem_append_left h]

end Bits

namespace Declaration

open Decoding

variable {fails : Error → Prop} {type : Declaration} {node : NodeId} {name : String}
  {scope : DynamicScope} {m : Decode Value}

/-- All ways to decode a value of a type: as a field of a node, as the content of a dynamic scope,
or at a node that exists. -/
def decodings (type : Declaration) (node : NodeId) (name : String) (scope : DynamicScope) :
    List (Decode Value) :=
  [type.decode node name, type.decodeRoot scope, type.decodeAt node]

theorem steps_decodings (h : m ∈ type.decodings node name scope) :
    Steps fails (fun _ => True) m := by
  simp only [decodings, List.mem_cons, List.not_mem_nil, or_false] at h
  rcases h with rfl | rfl | rfl
  · exact (steps_decode type node name).mono fun _ _ => trivial
  · exact steps_decodeRoot type scope trivial
  · exact (steps_decodeAt type node).mono fun _ _ => trivial

/-- Two cursors at one position, the buffers of which have the same first bytes. What is decoded
from the first one within these bytes is decoded from the second one as well, if it does not pass
the limit there: the value, the place where it ends and the tree of scopes are the same. What fails
for any reason but want of bits does so for the same reason in a buffer that goes on behind the
first one. -/
theorem decode_of_agreeing (h : m ∈ type.decodings node name scope) (scopes : ScopeTree)
    {c d : Cursor} {n : Nat} (hposition : d.position = c.position)
    (hsame : d.bytes.extract 0 n = c.bytes.extract 0 n) :
    (∀ value s, m ⟨c, scopes⟩ = .ok value s →
      s.cursor.position ≤ 8 * n → s.cursor.position ≤ d.limit →
        ∃ d', m ⟨d, scopes⟩ = .ok value ⟨d', s.scopes⟩ ∧
          d'.position = s.cursor.position ∧ d'.bytes = d.bytes ∧ d'.limit = d.limit) ∧
    ∀ rest e s, d.bytes = c.bytes ++ rest → c.limit ≤ d.limit → m ⟨c, scopes⟩ = .error e s →
      ¬e.IsOverrun → ∃ d', m ⟨d, scopes⟩ = .error e ⟨d', s.scopes⟩ := by
  have hsteps : Steps (fun _ => False) (fun _ => True) m := steps_decodings h
  have hpassed := hsteps.notBefore ⟨c, scopes⟩
  refine ⟨fun value s hrun hn hroom => ?_, fun rest e s hbytes hlimit hrun he => ?_⟩
  · rw [hrun, final_ok] at hpassed
    have hle := s.cursor.position_le
    rw [hpassed.1] at hle
    obtain ⟨d', hd', hposition'⟩ := hsteps.bounded hrun hposition (.inl hroom)
      (Bits.sameBelow_of_extract hsame hn hle (Nat.le_trans hroom d.limit_le))
    have hkept := hsteps.notBefore ⟨d, scopes⟩
    rw [hd', final_ok] at hkept
    exact ⟨d', hd', hposition', hkept.1, hkept.2.1⟩
  · rw [hrun, final_error] at hpassed
    have hle := s.cursor.position_le
    rw [hpassed.1] at hle
    apply hsteps.larger_error hrun hposition hlimit _ he
    intro i hi
    dsimp only at hle ⊢
    rw [hbytes, Bits.byteAt_append (by omega)]

/-- A struct of a number and as many bytes. -/
def countedBytes : Declaration :=
  .struct .byte
    [("length", .integer .byte), ("bytes", .sequence ⟨"length", by decide⟩ (.integer .byte))]

/-- Bytes the number of which is not told. -/
def uncountedBytes : Declaration := .sequence ⟨"length", by decide⟩ (.integer .byte)

/-- The number of two bytes and the bytes. -/
def twoBytes : ByteArray := ⟨#[2, 7, 9]⟩

theorem decode_of_agreeing_twoBytes :
    let rest : ByteArray := ⟨#[1, 0]⟩
    let short (type : Declaration) :=
      type.decode (ScopeTree.root .eventFields) "body" ⟨.ofBytes twoBytes, .empty⟩
    let long (type : Declaration) :=
      type.decode (ScopeTree.root .eventFields) "body" ⟨.ofBytes (twoBytes ++ rest), .empty⟩
    (twoBytes ++ rest).extract 0 3 = twoBytes.extract 0 3 ∧
      (∃ value s d', short countedBytes = .ok value s ∧
        long countedBytes = .ok value ⟨d', s.scopes⟩ ∧ d'.position = 24) ∧
      ∃ e s d', short uncountedBytes = .error e s ∧
        long uncountedBytes = .error e ⟨d', s.scopes⟩ := by
  intro rest short long
  have hsame : (twoBytes ++ rest).extract 0 3 = twoBytes.extract 0 3 := by decide
  have hmem (type : Declaration) : type.decode (ScopeTree.root .eventFields) "body" ∈
      type.decodings (ScopeTree.root .eventFields) "body" .eventFields := List.mem_cons_self
  have hends : (match short countedBytes with
      | .ok _ s => s.cursor.position
      | .error _ _ => 0) = 24 := by
    decide +kernel
  have hfails : (match short uncountedBytes with
      | .ok _ _ => none
      | .error e _ => some e) = some (.scopeResolution "length" .unsignedInteger) := by
    decide +kernel
  refine ⟨hsame, ?_, ?_⟩
  · cases hrun : short countedBytes with
    | error e s =>
      rw [hrun] at hends
      cases hends
    | ok value s =>
      rw [hrun] at hends
      obtain ⟨d', hd', hposition, -, -⟩ := (decode_of_agreeing (hmem countedBytes) .empty
        (c := .ofBytes twoBytes) (d := .ofBytes (twoBytes ++ rest)) rfl hsame).1 value s hrun
        (Nat.le_of_eq hends) (Nat.le_trans (Nat.le_of_eq hends) (by decide))
      exact ⟨value, s, d', rfl, hd', hposition.trans hends⟩
  · cases hrun : short uncountedBytes with
    | ok value s =>
      rw [hrun] at hfails
      cases hfails
    | error e s =>
      rw [hrun] at hfails
      have he : ¬e.IsOverrun := by
        rw [Option.some.inj hfails]
        exact id
      obtain ⟨d', hd'⟩ := (decode_of_agreeing (hmem uncountedBytes) .empty
        (c := .ofBytes twoBytes) (d := .ofBytes (twoBytes ++ rest)) rfl hsame).2 rest e s rfl
        (by decide) hrun he
      exact ⟨e, s, d', rfl, hd'⟩

end Declaration

end CommonTrace
