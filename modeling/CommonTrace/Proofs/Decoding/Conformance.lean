import CommonTrace.Proofs.Bits.Positional
import CommonTrace.Proofs.Decoding.Runs

/-!
# Decoded values conform to their types

A decoded value is one of its type: a number is in the range of its width, an enumeration has the
label of the first range that holds its number, a struct has the fields that are declared, in
order, and an array as many elements as its length tells. How many elements a sequence has and which
alternative a variant has was decided by the value that their path led to when their decoding began.
The members of a value are of the types that its own type tells, and conform to them in turn.
-/
namespace CommonTrace

namespace IntegerType

/-- Whether a number is one that an integer of a type can hold: it is in the range of the width, and
its 64-bit pattern is the number itself, with its sign extended if there is one. -/
def Admits (type : IntegerType) (n : Int) : Prop :=
  if type.isSigned then
    -2 ^ (type.size - 1) ≤ n ∧ n < 2 ^ (type.size - 1) ∧
      Value.pattern n = ((BitVec.ofInt type.size n).signExtend 64).toNat
  else 0 ≤ n ∧ n < 2 ^ type.size ∧ Value.pattern n = n

variable {type : IntegerType} {raw : Nat} {n : Int}

theorem pattern_of_nonneg (hn : 0 ≤ n) (hlt : n < 2 ^ type.size) : Value.pattern n = n := by
  have hword : (2 : Int) ^ type.size ≤ 2 ^ 64 := by
    exact_mod_cast Nat.pow_le_pow_right (by decide) type.size_le
  have hmod : n % 2 ^ 64 = n := Int.emod_eq_of_lt hn (by omega)
  unfold Value.pattern
  rw [show ((Nat.pow 2 64 : Nat) : Int) = 2 ^ 64 by decide, hmod, Int.toNat_of_nonneg hn]

theorem pattern_of_signed (hle : -2 ^ (type.size - 1) ≤ n) (hlt : n < 2 ^ (type.size - 1)) :
    Value.pattern n = ((BitVec.ofInt type.size n).signExtend 64).toNat := by
  have hhalf : (2 : Int) ^ type.size = 2 * 2 ^ (type.size - 1) := by
    rw [← pow_succ', Nat.sub_add_cancel type.size_pos]
  have htoInt : (BitVec.ofInt type.size n).toInt = n := by
    rw [BitVec.toInt_ofInt]
    apply Int.bmod_eq_of_le
    · push_cast
      omega
    · push_cast
      omega
  unfold Value.pattern
  rw [BitVec.signExtend, htoInt, BitVec.toNat_ofInt]

/-- A bit field of the width is read as a number that the type admits. -/
theorem admits_ofBits (hraw : raw < 2 ^ type.size) : type.Admits (type.ofBits raw) := by
  unfold Admits ofBits
  split
  next =>
    have hsigned := (Bits.isSigned_iff type.size_pos type.size_le hraw).2 rfl
    exact ⟨hsigned.least_le, hsigned.lt_greatest,
      pattern_of_signed hsigned.least_le hsigned.lt_greatest⟩
  next =>
    have hlt : (raw : Int) < 2 ^ type.size := by exact_mod_cast hraw
    have hnonneg := Int.natCast_nonneg raw
    exact ⟨hnonneg, hlt, pattern_of_nonneg hnonneg hlt⟩

theorem admits_of_readUnsigned {c c' : Cursor}
    (h : c.readUnsigned type.size type.order = .ok (raw, c')) : type.Admits (type.ofBits raw) := by
  obtain ⟨-, -, rfl, -⟩ := Cursor.readUnsigned_eq_ok h
  apply admits_ofBits
  rw [Bits.field_eq_placed]
  exact Bits.placed_lt _ _ _ _

end IntegerType

/-- Whether a range holds a number. -/
def Mapping.Holds (m : Mapping) (n : Int) : Prop := m.low ≤ n ∧ n ≤ m.high

namespace EnumType

/-- Whether a label is that of the first range that holds a number. -/
def Labels (type : EnumType) (n : Int) (label : String) : Prop :=
  ∃ before m after, type.mappings = before ++ m :: after ∧ m.Holds n ∧ m.label = label ∧
    ∀ m' ∈ before, ¬m'.Holds n

variable {type : EnumType} {n : Int} {label : String}

theorem label?_eq_some : type.label? n = some label ↔ type.Labels n label := by
  unfold label? Labels Mapping.Holds
  rw [Option.map_eq_some_iff]
  simp only [List.find?_eq_some_iff_append]
  constructor
  · rintro ⟨m, ⟨hholds, before, after, hsplit, hbefore⟩, hlabel⟩
    refine ⟨before, m, after, hsplit, by simpa using hholds, hlabel, fun m' hm' hm => ?_⟩
    simpa [hm.1, hm.2] using hbefore m' hm'
  · rintro ⟨before, m, after, hsplit, hholds, hlabel, hbefore⟩
    refine ⟨m, ⟨by simpa using hholds, before, after, hsplit, fun m' hm' => ?_⟩, hlabel⟩
    have hm := hbefore m' hm'
    simp only [Bool.not_eq_true', Bool.and_eq_false_iff, decide_eq_false_iff_not]
    omega

theorem label?_eq_none : type.label? n = none ↔ ∀ m ∈ type.mappings, ¬m.Holds n := by
  simp [label?, Mapping.Holds]

end EnumType

namespace Decoded

variable {d : Decoded} {place : Place} {s s' : Decoding} {members : List (String × Decoded)}

/-- Whether a value with some members is one of its type, what it refers to taken as it was when
its decoding began. -/
def Conforms (d : Decoded) (members : List (String × Decoded)) : Prop :=
  d.value.declaration = d.type ∧
    match d.value with
    | .integer type _ n => type.Admits n
    | .float _ _ _ => True
    | .enumeration type _ n =>
      type.container.Admits n ∧
        (∀ label, d.value.enumLabel? = some (some label) ↔ type.Labels n label) ∧
        (d.value.enumLabel? = some none ↔ ∀ m ∈ type.mappings, ¬m.Holds n)
    | .string _ _ _ => True
    | .struct _ types _ _ fields =>
      members.map (fun m => (m.1, m.2.value)) = fields ∧
        members.map (fun m => (m.1, m.2.type)) = types
    | .array length element _ _ elements =>
      members.map (·.2.value) = elements ∧ elements.length = length ∧
        ∀ m ∈ members, m.2.type = element
    | .sequence length element _ _ elements =>
      members.map (·.2.value) = elements ∧
        (∃ found n, d.before.scopes.lookupTokens? d.node length.tokens = some found ∧
          found.integer? = some n ∧ 0 ≤ n ∧ n = elements.length) ∧
        ∀ m ∈ members, m.2.type = element
    | .variant tag options _ _ label current =>
      ∃ found member, d.before.scopes.lookupTokens? d.node tag.tokens = some found ∧
        found.enumLabel? = some (some label) ∧ members = [(label, member)] ∧
        member.value = current ∧ Declaration.named? label options = some member.type

theorem Holds.values (h : d.Holds members) (hnode : d.value.node? = some d.node) :
    members.map (fun m => (m.1, m.2.value)) = d.value.members := by
  cases h with
  | nothing hnone => simp [hnone] at hnode
  | inTurn _ hvalues _ _ => exact hvalues

theorem map_value_of_indexed {elements : List Value}
    (h : members.map (fun m => (m.1, m.2.value)) = Value.indexed elements) :
    members.map (·.2.value) = elements := by
  have hindexed : (Value.indexed elements).map Prod.snd = elements := by
    apply List.ext_getElem
    · simp [Value.indexed]
    · simp [Value.indexed]
  rw [← hindexed, ← h, List.map_map]
  rfl

/-- Every value conforms to its type with the members that it has. -/
theorem exists_conforms (d : Decoded) : ∃ members, d.Holds members ∧ d.Conforms members := by
  cases d.shape with
  | integer type raw htype hvalue hread =>
    refine ⟨[], .nothing (by simp [hvalue, Value.node?]), d.declaration_eq, ?_⟩
    rw [hvalue]
    exact IntegerType.admits_of_readUnsigned hread
  | float type x htype hvalue _ =>
    refine ⟨[], .nothing (by simp [hvalue, Value.node?]), d.declaration_eq, ?_⟩
    rw [hvalue]
    trivial
  | enumeration type raw htype hvalue hread =>
    refine ⟨[], .nothing (by simp [hvalue, Value.node?]), d.declaration_eq, ?_⟩
    rw [hvalue]
    refine ⟨IntegerType.admits_of_readUnsigned hread, fun label => ?_, ?_⟩
    · rw [Value.enumLabel?, Option.some_inj, EnumType.label?_eq_some]
    · rw [Value.enumLabel?, Option.some_inj, EnumType.label?_eq_none]
  | string encoding text htype hvalue _ =>
    refine ⟨[], .nothing (by simp [hvalue, Value.node?]), d.declaration_eq, ?_⟩
    rw [hvalue]
    trivial
  | struct minAlignment types fields members htype hvalue hmembers htypes =>
    have hvalues := hmembers.values (by simp [hvalue, Value.node?])
    refine ⟨members, hmembers, d.declaration_eq, ?_⟩
    rw [hvalue] at hvalues ⊢
    exact ⟨hvalues, htypes⟩
  | array length element elements members htype hvalue hmembers hlength htypes =>
    have hvalues := hmembers.values (by simp [hvalue, Value.node?])
    refine ⟨members, hmembers, d.declaration_eq, ?_⟩
    rw [hvalue] at hvalues ⊢
    exact ⟨map_value_of_indexed hvalues, hlength, htypes⟩
  | sequence length element found elements members htype hvalue hfound hmembers hlength htypes =>
    have hvalues := hmembers.values (by simp [hvalue, Value.node?])
    obtain ⟨n, hn, hunsigned⟩ := Option.bind_eq_some_iff.1 hlength
    obtain ⟨hcount, -⟩ := Width.unsigned?_eq_some.1 hunsigned
    refine ⟨members, hmembers, d.declaration_eq, ?_⟩
    rw [hvalue] at hvalues ⊢
    exact ⟨map_value_of_indexed hvalues, ⟨found, n, hfound, hn, by omega, hcount⟩, htypes⟩
  | variant tag options found label member htype hvalue hfound hmembers hlabel hoption =>
    refine ⟨_, hmembers, d.declaration_eq, ?_⟩
    rw [hvalue]
    exact ⟨found, member, hfound, hlabel, rfl, rfl, hoption⟩

/-- A value that is decoded has the type that it was decoded from, and it and all that it is made of
conform to their types. -/
theorem conforms_of_decode {type : Declaration} {value : Value}
    (h : place.decode type s = .ok value s') :
    value.declaration = type ∧
      ∃ d : Decoded, d.Starts place s ∧ d.type = type ∧ d.value = value ∧ d.after = s' ∧
        d.Throughout Conforms := by
  obtain ⟨d, hstarts, rfl, rfl, rfl⟩ := Place.decode_eq_ok h
  refine ⟨d.declaration_eq, d, hstarts, rfl, rfl, rfl, ?_⟩
  refine throughout (Q := fun _ => True) (fun d _ => ?_) trivial
  obtain ⟨members, hmembers, hconforms⟩ := d.exists_conforms
  exact ⟨members, hmembers, hconforms, fun _ _ => trivial⟩

/-- An enumeration with ranges that overlap, a number with a sign, as many bytes as the enumeration
tells, and an alternative that its label selects. -/
def taggedType : Declaration :=
  let small (size : Nat) (hpos : 0 < size) (hle : size ≤ 64) (isSigned : Bool) : IntegerType :=
    ⟨size, hpos, hle, isSigned, .little, .decimal, ⟨1, Nat.one_pos⟩, .none⟩
  let kind : EnumType :=
    ⟨small 2 (by decide) (by decide) false, [⟨0, 3, "few", by decide⟩, ⟨2, 9, "many", by decide⟩]⟩
  .struct .byte
    [("kind", .enumeration kind), ("change", .integer (small 6 (by decide) (by decide) true)),
      ("items", .sequence ⟨"kind", by decide⟩ (.integer .byte)),
      ("rest", .variant ⟨"kind", by decide⟩
        [("many", .string .utf8), ("few", .integer .byte)])]

theorem conforms_of_decode_taggedType :
    ∃ value s', (Place.field (ScopeTree.root .eventFields) "body").decode taggedType
        ⟨.ofBytes ⟨#[0xF6, 7, 8, 9]⟩, .empty⟩ = .ok value s' ∧
      (value.field? "kind").bind Value.enumLabel? = some (some "few") ∧
      (value.field? "change").bind Value.integer? = some (-3) ∧
      ((value.field? "items").bind Value.elements?).map List.length = some 2 ∧
      value.declaration = taggedType ∧
      ∃ d : Decoded, d.value = value ∧ d.after = s' ∧ d.Throughout Conforms := by
  have hvalue : (Declaration.decoded? ((Place.field (ScopeTree.root .eventFields) "body").decode
      taggedType ⟨.ofBytes ⟨#[0xF6, 7, 8, 9]⟩, .empty⟩)).map (fun value =>
        ((value.field? "kind").bind Value.enumLabel?, (value.field? "change").bind Value.integer?,
          ((value.field? "items").bind Value.elements?).map List.length)) =
      some (some (some "few"), some (-3), some 2) := by
    decide +kernel
  cases h : (Place.field (ScopeTree.root .eventFields) "body").decode taggedType
      ⟨.ofBytes ⟨#[0xF6, 7, 8, 9]⟩, .empty⟩ with
  | error e s' =>
    rw [h] at hvalue
    cases hvalue
  | ok value s' =>
    rw [h] at hvalue
    obtain ⟨hdeclaration, d, -, -, hd, hafter, hconforms⟩ := conforms_of_decode h
    obtain ⟨hkind, hrest⟩ := Prod.mk.inj (Option.some.inj hvalue)
    obtain ⟨hchange, hitems⟩ := Prod.mk.inj hrest
    exact ⟨value, s', rfl, hkind, hchange, hitems, hdeclaration, d, hd, hafter, hconforms⟩

end Decoded

end CommonTrace
