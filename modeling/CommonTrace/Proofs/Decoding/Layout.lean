import CommonTrace.Proofs.Decoding.Growth
import CommonTrace.Proofs.Decoding.Runs

/-!
# The layout of decoded values

A decoded value takes the bits from its offset up to where decoding has gone with it. The offset is
aligned for the type of the value. Members lie within the value one after the other, each at the
first aligned position that is left by the ones before, so that no two of them share a bit; a number
takes the bits of its width. This holds of the value, of its members, of their members and so on,
whatever is nested in what, and also if nothing is in it.
-/
namespace CommonTrace

/-- The widths of a floating point value that can be declared add up without wrapping. -/
theorem Precision.floatWidth_eq (precision : Precision) :
    Bits.floatWidth precision.exponentBits precision.mantissaBits =
      precision.exponentBits + precision.mantissaBits := by
  cases precision <;> rfl

namespace Declaration

theorem alignment_pos : (type : Declaration) → 0 < type.alignment
  | integer type => type.alignment.positive
  | float type => type.alignment.positive
  | enumeration type => type.container.alignment.positive
  | string _ => by simp [alignment]
  | struct minAlignment _ => Nat.lt_of_lt_of_le minAlignment.positive (Nat.le_max_left _ _)
  | array _ element => element.alignment_pos
  | sequence _ element => element.alignment_pos
  | variant _ _ => by simp [alignment]

/-- The bits that a number takes; those of other values depend on what is decoded. -/
def width? : Declaration → Option Nat
  | integer type => some type.size
  | float type => some (type.precision.exponentBits + type.precision.mantissaBits)
  | enumeration type => some type.container.size
  | _ => none

end Declaration

namespace Decoded

open Decoding

variable {d : Decoded} {parent : NodeId} {place : Place} {s s' : Decoding}
  {members : List (String × Decoded)} {start stop : Nat}

/-- Members lie one after the other between two positions, each at the first position that is
aligned for it and not before the end of the one before. -/
inductive Packed : Nat → List (String × Decoded) → Nat → Prop
  | nil {start stop : Nat} (h : start ≤ stop) : Packed start [] stop
  | cons {start stop : Nat} {name : String} {d : Decoded} {rest : List (String × Decoded)}
      (hfirst : IsLeast {i | start ≤ i ∧ d.type.alignment ∣ i} d.first) (hrange : d.first ≤ d.last)
      (hrest : Packed d.last rest stop) : Packed start ((name, d) :: rest) stop

/-- How a value and its members are laid out. -/
structure LaidOut (d : Decoded) (members : List (String × Decoded)) : Prop where
  declaration : d.value.declaration = d.type
  offset : d.value.offset = d.first
  aligned : d.type.alignment ∣ d.first
  ordered : d.first ≤ d.last
  width : ∀ width, d.type.width? = some width → d.last = d.first + width
  types : ∀ minAlignment types, d.type = .struct minAlignment types →
    members.map (fun m => (m.1, m.2.type)) = types
  packed : Packed d.first members d.last
  inside : ∀ m ∈ members, d.first ≤ m.2.first ∧ m.2.last ≤ d.last
  apart : members.Pairwise fun m m' => m.2.last ≤ m'.2.first

theorem Packed.le (h : Packed start members stop) : start ≤ stop := by
  induction h with
  | nil h => exact h
  | cons hfirst hrange _ ih =>
    have hle := hfirst.1.1
    omega

theorem Packed.inside (h : Packed start members stop) :
    ∀ m ∈ members, start ≤ m.2.first ∧ m.2.last ≤ stop := by
  induction h with
  | nil h => simp
  | cons hfirst hrange hrest ih =>
    have hle := hfirst.1.1
    intro m hm
    rcases List.mem_cons.1 hm with rfl | hm
    · exact ⟨hle, hrest.le⟩
    · have hm := ih m hm
      omega

theorem Packed.apart (h : Packed start members stop) :
    members.Pairwise fun m m' => m.2.last ≤ m'.2.first := by
  induction h with
  | nil h => exact .nil
  | cons hfirst hrange hrest ih => exact ih.cons fun m hm => (hrest.inside m hm).1

/-- Decoding a value does not go back. -/
theorem first_le_last (d : Decoded) : d.first ≤ d.last := by
  have hsteps : Steps (fun _ => False) (· = d.node) (d.type.decodeAt d.node) :=
    d.type.steps_decodeAt d.node
  have hrun := hsteps.notBefore d.before
  rw [d.run, final_ok] at hrun
  exact hrun.2.2

theorem Starts.isLeast (h : d.Starts place s) :
    IsLeast {i | s.cursor.position ≤ i ∧ d.type.alignment ∣ i} d.first :=
  Cursor.isLeast_of_align d.type.alignment_pos h.aligned

theorem InTurn.aligned (h : InTurn parent s members s') :
    ∀ m ∈ members, m.2.type.alignment ∣ m.2.first := by
  induction h with
  | nil s => simp
  | cons hd _ ih =>
    intro m hm
    rcases List.mem_cons.1 hm with rfl | hm
    · exact hd.isLeast.1.2
    · exact ih m hm

theorem InTurn.packed (h : InTurn parent s members s') :
    Packed s.cursor.position members s'.cursor.position := by
  induction h with
  | nil s => exact .nil (Nat.le_refl _)
  | @cons _ _ _ d _ hd _ ih => exact .cons hd.isLeast d.first_le_last ih

theorem Holds.packed (h : d.Holds members) : Packed d.first members d.last := by
  cases h with
  | nothing => exact .nil d.first_le_last
  | inTurn _ _ hturn hafter =>
    have hpacked := hturn.packed
    rwa [last, hafter]

theorem Holds.aligned (h : d.Holds members) : ∀ m ∈ members, m.2.type.alignment ∣ m.2.first := by
  cases h with
  | nothing => simp
  | inTurn _ _ hturn _ => exact hturn.aligned

/-- A number takes the bits of its width. -/
theorem last_of_width {width : Nat} (h : d.type.width? = some width) :
    d.last = d.first + width := by
  have hread {raw : Nat} {order : ByteOrder} {width : Nat}
      (h : d.before.cursor.readUnsigned width order = .ok (raw, d.after.cursor)) :
      d.last = d.first + width :=
    (Cursor.advance_eq_ok (Cursor.readUnsigned_eq_ok h).2.2.2).2.2.1
  cases d.shape with
  | integer type raw htype _ hraw =>
    rw [htype] at h
    cases h
    exact hread hraw
  | float type x htype _ hx =>
    rw [htype] at h
    cases h
    obtain ⟨raw, hraw⟩ := Cursor.readFloat_eq_ok hx
    rw [type.precision.floatWidth_eq] at hraw
    exact hread hraw
  | enumeration type raw htype _ hraw =>
    rw [htype] at h
    cases h
    exact hread hraw
  | _ => simp_all [Declaration.width?]

/-- Every value has members; those of a struct are of the types that it declares. -/
theorem exists_holds (d : Decoded) : ∃ members, d.Holds members ∧
    ∀ minAlignment types, d.type = .struct minAlignment types →
      members.map (fun m => (m.1, m.2.type)) = types := by
  cases d.shape with
  | struct minAlignment types fields members htype _ hmembers htypes =>
    refine ⟨members, hmembers, fun minAlignment' types' htype' => ?_⟩
    rw [htype] at htype'
    cases htype'
    exact htypes
  | array length element elements members htype _ hmembers =>
    exact ⟨members, hmembers, by simp [htype]⟩
  | sequence length element found elements members htype _ _ hmembers =>
    exact ⟨members, hmembers, by simp [htype]⟩
  | variant tag options found label member htype _ _ hmembers =>
    exact ⟨_, hmembers, by simp [htype]⟩
  | _ => exact ⟨[], .nothing (by simp_all [Value.node?]), by simp_all⟩

/-- A value at an aligned position is laid out with its members. -/
theorem exists_laidOut (haligned : d.type.alignment ∣ d.first) :
    ∃ members, d.Holds members ∧ d.LaidOut members := by
  obtain ⟨members, hmembers, htypes⟩ := d.exists_holds
  have hpacked := hmembers.packed
  exact ⟨members, hmembers, d.declaration_eq, d.offset_eq, haligned, d.first_le_last,
    fun _ => last_of_width, htypes, hpacked, hpacked.inside, hpacked.apart⟩

/-- A value that is decoded from a position within the limit lies at or after this position and
within the limit, and it and all that it is made of are laid out as their types tell. -/
theorem laidOut_of_decode {type : Declaration} {value : Value}
    (hs : s.cursor.position ≤ s.cursor.limit) (h : place.decode type s = .ok value s') :
    (s'.cursor.position ≤ s'.cursor.limit ∧ s'.cursor.limit = s.cursor.limit) ∧
      (s.cursor.position ≤ value.offset ∧ value.offset ≤ s'.cursor.position) ∧
      ∃ d : Decoded, d.Starts place s ∧ d.type = type ∧ d.value = value ∧ d.after = s' ∧
        d.Throughout LaidOut := by
  have hsteps : Steps (fun _ => False) (fun _ => True) (place.decode type) := by
    cases place with
    | field parent name => exact (type.steps_decode parent name).mono fun _ _ => trivial
    | content scope => exact type.steps_decodeRoot scope trivial
  have hwithin := hsteps.within s hs
  have hlimit := (hsteps.notBefore s).2.1
  rw [h, final_ok] at hwithin hlimit
  obtain ⟨d, hstarts, htype, rfl, rfl⟩ := Place.decode_eq_ok h
  have hfirst := hstarts.isLeast.1
  refine ⟨⟨hlimit ▸ hwithin, hlimit⟩, ?_, d, hstarts, htype, rfl, rfl, ?_⟩
  · rw [d.offset_eq]
    exact ⟨hfirst.1, d.first_le_last⟩
  · refine throughout (Q := fun d => d.type.alignment ∣ d.first) (fun d haligned => ?_) hfirst.2
    obtain ⟨members, hmembers, hlaid⟩ := exists_laidOut haligned
    exact ⟨members, hmembers, hlaid, hmembers.aligned⟩

/-- A bit, no bytes, and a bit and a byte that are aligned together. -/
def spacedType : Declaration :=
  let bit : IntegerType :=
    ⟨1, Nat.one_pos, by decide, false, .little, .decimal, ⟨1, Nat.one_pos⟩, .none⟩
  .struct ⟨1, Nat.one_pos⟩
    [("flag", .integer bit), ("none", .array 0 (.integer .byte)),
      ("both", .struct ⟨16, by decide⟩ [("flag", .integer bit), ("byte", .integer .byte)])]

theorem laidOut_of_decode_spacedType :
    let start : Decoding := ⟨.ofBytes ⟨#[1, 0, 1, 5, 0]⟩, .empty⟩
    start.cursor.position ≤ start.cursor.limit ∧
      ∃ value s', (Place.content .eventFields).decode spacedType start = .ok value s' ∧
        value.members.map (fun m => (m.1, m.2.offset)) = [("flag", 0), ("none", 8), ("both", 16)] ∧
        value.offset = 0 ∧ s'.cursor.position = 32 ∧
        ∃ d : Decoded, d.value = value ∧ d.after = s' ∧ d.Throughout LaidOut := by
  intro start
  have hs : start.cursor.position ≤ start.cursor.limit := by decide
  have hvalue : (Declaration.decoded? ((Place.content .eventFields).decode spacedType start)).map
      (fun value => (value.members.map (fun m => (m.1, m.2.offset)), value.offset)) =
        some ([("flag", 0), ("none", 8), ("both", 16)], 0) := by
    decide +kernel
  have hends : (final ((Place.content .eventFields).decode spacedType start)).cursor.position =
      32 := by
    decide +kernel
  cases h : (Place.content .eventFields).decode spacedType start with
  | error e s' =>
    rw [h] at hvalue
    cases hvalue
  | ok value s' =>
    rw [h] at hvalue hends
    obtain ⟨-, -, d, -, -, hd, hafter, hlaid⟩ := laidOut_of_decode hs h
    obtain ⟨hmembers, hoffset⟩ := Prod.mk.inj (Option.some.inj hvalue)
    exact ⟨hs, value, s', rfl, hmembers, hoffset, hends, d, hd, hafter, hlaid⟩

end Decoded

end CommonTrace
