import CommonTrace.Proofs.Compact.Format

/-!
# Reading compact and extended headers

The layout of a header is selected by the number before it, to which it refers by name. With lexical
scopes that number is found whatever was decoded before, so a header is read in the same way from
every tree of scopes that mirrors some contents.
-/
namespace CommonTrace.Compact

open Lexical

namespace Header

/-- The type of the field that holds the time. -/
def timeType : Header → IntegerType
  | compact _ => lowType
  | extended _ => .ofBytes .eight

/-- The value of the field that holds the time. -/
def timeValue : Header → Nat
  | compact timestamp => timestamp.toNat % 2 ^ 27
  | extended timestamp => timestamp.toNat

theorem bytes_ne_nil (h : Header) : h.bytes ≠ [] := by
  intro hnil
  have hlength := congrArg List.length hnil
  cases h <;> simp [bytes] at hlength

theorem reconstructTimestamp_eq {last : UInt64} {h : Header} (hlast : h.Recoverable last) :
    reconstructTimestamp last.toNat (Value.pattern h.timeValue) h.timeType.size =
      h.timestamp.toNat := by
  cases h with
  | compact timestamp =>
    obtain ⟨hle, hlt⟩ := hlast
    have hpattern : timestamp.toNat % 2 ^ 27 < 2 ^ 64 :=
      Nat.lt_trans (Nat.mod_lt _ (by decide)) (by decide)
    rw [timeValue, Value.pattern_of_lt hpattern]
    exact reconstructTimestamp_of_lt (UInt64.le_iff_toNat_le.1 hle) hlt timestamp.toNat_lt
  | extended timestamp =>
    rw [timeValue, Value.pattern_of_lt timestamp.toNat_lt]
    exact reconstructTimestamp_of_le (Nat.le_refl 64)

end Header

variable {others : DynamicScope → Content} {c c₁ c₂ : Cursor} {rest : List UInt8}

theorem align_one (c : Cursor) : c.align 1 = .ok c := Cursor.align_of_aligned (Nat.mod_one _)

/-- A header is decoded to the number that selects the layout and what the layout holds. -/
theorem decodeRoot_eventHeader {value : Nat} {label : String} {type : Declaration} {datum : Datum}
    (hid : c.readUnsigned 5 .little = .ok (value, c₁)) (hlabel : idType.label? value = some label)
    (htype : Declaration.named? label layouts = some type)
    (hlayout : member type.alignment (decodeAt type (((Surroundings.root .eventHeader others).within
      [("id", .enumeration idType c.position value)] "v").within [] label)) c₁ = .ok (datum, c₂)) :
    decodeRoot eventHeader.declaration .eventHeader others c =
      .ok (.struct eventHeader.minAlignment eventHeader.fields c.position
        [("id", .enumeration idType c.position value),
          ("v", .variant tag layouts c₁.position label datum)], c₂) := by
  have htag : (((Surroundings.root .eventHeader others).within
      [("id", .enumeration idType c.position value)] "v").find? (.having []) tag.tokens).bind
        Datum.enumLabel? = some (some label) := by
    have htokens : tag.tokens = ["id"] := by decide
    rw [htokens, find?_of_member (by decide) (by decide) rfl, ← hlabel]
    rfl
  have hfirst : member 1 (decodeAt (.enumeration idType)
      ((Surroundings.root .eventHeader others).within [] "id")) c =
        .ok (.enumeration idType c.position value, c₁) :=
    member_eq_ok (align_one c) (decodeAt_enumeration (integer_eq_ok rfl hid))
  have hsecond : member 1 (decodeAt (.variant tag layouts) ((Surroundings.root .eventHeader
      others).within [("id", .enumeration idType c.position value)] "v")) c₁ =
        .ok (.variant tag layouts c₁.position label datum, c₂) :=
    member_eq_ok (align_one c₁) (decodeAt_variant htag (decodeOption_eq_ok htype hlayout))
  exact bind_eq_ok (align_eq_ok (align_one c))
    (decodeAt_struct (decodeFields_cons hfirst (decodeFields_cons hsecond decodeFields_nil)))

/-- A compact header is read from its four bytes. -/
theorem decodeRoot_compact (timestamp : UInt64) (haligned : c.position % 8 = 0)
    (hahead : c.Ahead ((Header.compact timestamp).bytes ++ rest)) :
    ∃ datum c', decodeRoot eventHeader.declaration .eventHeader others c = .ok (datum, c') ∧
      datum.headerFields =
        (some 0, some (lowType, ((timestamp.toNat % 2 ^ 27 : Nat) : Int))) ∧
      c'.position = c.position + 32 ∧ c'.Ahead rest := by
  have hlow : timestamp.toNat % 2 ^ 27 < 2 ^ 27 := Nat.mod_lt _ (by decide)
  have hlength : ((Header.compact timestamp).bytes ++ rest).length = 4 + rest.length := by
    simp [Header.bytes]
  have hvalue : Bits.little ((Header.compact timestamp).bytes ++ rest) =
      2 ^ 5 * (timestamp.toNat % 2 ^ 27) + 2 ^ 32 * Bits.little rest := by
    rw [Header.bytes, Bits.little_append, Bits.little_word, Bits.length_word]
    omega
  obtain ⟨c₁, hid, hposition₁, hahead₁⟩ := hahead.readUnsigned 5 (by decide) (by decide) (by omega)
  have hnone : (c.position % 8 + 5) / 8 = 0 := by omega
  rw [hnone, List.drop_zero] at hahead₁
  obtain ⟨c₂, htime, hposition₂, hahead₂⟩ :=
    hahead₁.readUnsigned 27 (by decide) (by decide) (by omega)
  have hfirst : c₁.position % 8 = 5 := by omega
  have hfour : (c₁.position % 8 + 27) / 8 = (Header.compact timestamp).bytes.length := by
    rw [hfirst, Header.bytes, Bits.length_word]
  have hselector : Bits.little ((Header.compact timestamp).bytes ++ rest) / 2 ^ (c.position % 8) %
      2 ^ 5 = 0 := by
    rw [haligned, hvalue]
    omega
  have htimestamp : Bits.little ((Header.compact timestamp).bytes ++ rest) / 2 ^ (c₁.position % 8) %
      2 ^ 27 = timestamp.toNat % 2 ^ 27 := by
    rw [hfirst, hvalue]
    omega
  rw [hselector] at hid
  rw [htimestamp] at htime
  rw [hfour, List.drop_left] at hahead₂
  have hfield (around : Surroundings) :
      member 1 (decodeAt (.integer lowType) around) c₁ =
        .ok (.integer lowType c₁.position (timestamp.toNat % 2 ^ 27 : Nat), c₂) :=
    member_eq_ok (align_one c₁) (decodeAt_integer (integer_eq_ok rfl htime))
  refine ⟨_, c₂, decodeRoot_eventHeader hid rfl rfl (member_eq_ok (align_one c₁)
    (decodeAt_struct (decodeFields_cons (hfield _) decodeFields_nil))), rfl, by omega, hahead₂⟩

/-- An extended header is read from its thirteen bytes. -/
theorem decodeRoot_extended (timestamp : UInt64) (haligned : c.position % 8 = 0)
    (hahead : c.Ahead ((Header.extended timestamp).bytes ++ rest)) :
    ∃ datum c', decodeRoot eventHeader.declaration .eventHeader others c = .ok (datum, c') ∧
      datum.headerFields =
        (some 0, some (IntegerType.ofBytes .eight, (timestamp.toNat : Int))) ∧
      c'.position = c.position + 104 ∧ c'.Ahead rest := by
  have hbytes : (Header.extended timestamp).bytes ++ rest =
      31 :: (Bits.word 4 0 ++ (Bits.word 8 timestamp.toNat ++ rest)) := by
    simp [Header.bytes]
  rw [hbytes] at hahead
  obtain ⟨c₁, hid, hposition₁, hahead₁⟩ := hahead.readUnsigned 5 (by decide) (by decide) (by
    rw [List.length_cons]
    omega)
  have hnone : (c.position % 8 + 5) / 8 = 0 := by omega
  rw [hnone, List.drop_zero] at hahead₁
  have hselector : Bits.little (31 :: (Bits.word 4 0 ++ (Bits.word 8 timestamp.toNat ++ rest))) /
      2 ^ (c.position % 8) % 2 ^ 5 = 31 := by
    have hbyte : (31 : UInt8).toNat = 31 := rfl
    rw [haligned, Bits.little, hbyte]
    omega
  rw [hselector] at hid
  -- three bits lie between the selector and the layout, which starts at a byte
  have hfirst : c₁.position % 8 = 5 := by omega
  obtain ⟨c₂, halign, hposition₂, hahead₂⟩ := hahead₁.advance (Cursor.padding c₁.position 8) (by
    rw [Cursor.padding, hfirst, List.length_cons]
    omega)
  have hone : (c₁.position % 8 + Cursor.padding c₁.position 8) / 8 = 1 := by
    rw [Cursor.padding, hfirst]
  rw [hone, List.drop_one, List.tail_cons] at hahead₂
  have hpadding : Cursor.padding c₁.position 8 = 3 := by
    rw [Cursor.padding, hfirst]
  obtain ⟨c₃, hclass, hposition₃, hahead₃⟩ := hahead₂.readWord (by omega) (by decide) (by decide)
  obtain ⟨c₄, htime, hposition₄, hahead₄⟩ := hahead₃.readWord (by omega) (by decide) (by decide)
  have hwhole : timestamp.toNat % 256 ^ 8 = timestamp.toNat := Nat.mod_eq_of_lt timestamp.toNat_lt
  rw [hwhole] at htime
  have hclassField (around : Surroundings) :
      member 8 (decodeAt (.ofBytes .four) around) c₂ =
        .ok (.integer (.ofBytes .four) c₂.position (0 : Nat), c₃) :=
    member_eq_ok (Cursor.align_of_aligned (by omega)) (decodeAt_integer (integer_eq_ok rfl hclass))
  have htimeField (around : Surroundings) :
      member 8 (decodeAt (.ofBytes .eight) around) c₃ =
        .ok (.integer (.ofBytes .eight) c₃.position timestamp.toNat, c₄) :=
    member_eq_ok (Cursor.align_of_aligned (by omega)) (decodeAt_integer (integer_eq_ok rfl htime))
  refine ⟨_, c₄, decodeRoot_eventHeader hid rfl rfl (member_eq_ok halign (decodeAt_struct
    (decodeFields_cons (hclassField _) (decodeFields_cons (htimeField _) decodeFields_nil)))), rfl,
    by omega, hahead₄⟩

theorem Header.decodeRoot_bytes (h : Header) (others : DynamicScope → Content)
    (haligned : c.position % 8 = 0)
    (hahead : c.Ahead (h.bytes ++ rest)) :
    ∃ datum c', decodeRoot eventHeader.declaration .eventHeader others c = .ok (datum, c') ∧
      datum.headerFields = (some tick.id, some (h.timeType, (h.timeValue : Int))) ∧
      c'.position = c.position + 8 * h.bytes.length ∧ c'.Ahead rest := by
  cases h with
  | compact timestamp => exact decodeRoot_compact timestamp haligned hahead
  | extended timestamp => exact decodeRoot_extended timestamp haligned hahead

/-- A header is read from the bytes that were written for it, whatever was decoded before. -/
theorem Header.takes (h : Header) {t : ScopeTree} (ht : Mirrored t) (first : Nat) :
    Takes (Preamble.section? stream.eventHeader .eventHeader) t first h.bytes fun header =>
      (header.map OpenPacket.headerFields).getD (none, none) =
        (some tick.id, some (h.timeType, (h.timeValue : Int))) := by
  intro c rest hposition hahead
  obtain ⟨others, hholds⟩ := ht.holds .eventHeader
  obtain ⟨datum, c', hread, hnames, hposition', hahead'⟩ :=
    h.decodeRoot_bytes others (by omega) hahead
  obtain ⟨value, t', hrun, hdatum⟩ := decodeRoot_of_reading hholds hread
  refine ⟨some value, c', t', ?_, ?_, by omega, hahead'⟩
  · show (some <$> eventHeader.declaration.decodeRoot .eventHeader) ⟨c, t⟩ = _
    rw [map_eq_pure_bind, Decoding.bind_apply, hrun]
    rfl
  · show OpenPacket.headerFields value = _
    rw [← OpenPacket.headerFields_datum, hdatum, hnames]

end CommonTrace.Compact
