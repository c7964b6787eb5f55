import CommonTrace.Packet.Preamble
import CommonTrace.Proofs.Bits.Writing
import CommonTrace.Proofs.Decoding.Steps

/-!
# Decoding what was written

A section whose fields are numbers of whole bytes and texts is written by writing its fields one
after the other. Decoding takes these bytes, whatever follows them, and yields the fields; the tree
of scopes plays no part in it.
-/
namespace CommonTrace

open Decoding

/-- From some tree of scopes, decoding takes some bytes that start at the byte `first` of a buffer,
whatever follows them, and yields one of some results. -/
def Takes {α : Type} (m : Decode α) (t : ScopeTree) (first : Nat) (bytes : List UInt8)
    (results : α → Prop) : Prop :=
  ∀ (c : Cursor) (rest : List UInt8), c.position = 8 * first → c.Ahead (bytes ++ rest) →
    ∃ a c' t', m ⟨c, t⟩ = .ok a ⟨c', t'⟩ ∧ results a ∧ c'.position = 8 * (first + bytes.length) ∧
      c'.Ahead rest

/-- From some tree of scopes, decoding takes some bytes, whatever follows them, and yields one
result. -/
def Decodes {α : Type} (m : Decode α) (t : ScopeTree) (first : Nat) (bytes : List UInt8) (a : α) :
    Prop :=
  Takes m t first bytes (· = a)

/-- How many bytes a number is written in. -/
inductive Width.Bytes where
  | one
  | two
  | four
  | eight

namespace Width.Bytes

/-- The number of bytes. -/
@[simp] def count : Bytes → Nat
  | one => 1
  | two => 2
  | four => 4
  | eight => 8

theorem count_pos (width : Bytes) : 0 < width.count := by
  cases width <;> decide

theorem count_le (width : Bytes) : width.count ≤ 8 := by
  cases width <;> decide

theorem bits_pos (width : Bytes) : 0 < 8 * width.count := Nat.mul_pos (by decide) width.count_pos

theorem bits_le (width : Bytes) : 8 * width.count ≤ 64 := Nat.mul_le_mul_left 8 width.count_le

end Width.Bytes

/-- The type of unsigned numbers of some whole bytes, the least significant one first. -/
def IntegerType.ofBytes (width : Width.Bytes) : IntegerType :=
  ⟨8 * width.count, width.bits_pos, width.bits_le, false, .little, .decimal, .byte, .none⟩

/-- The type of fields that hold such numbers. -/
def Declaration.ofBytes (width : Width.Bytes) : Declaration := .integer (.ofBytes width)

theorem Decoding.integer_of_unsigned {type : IntegerType} {c c' : Cursor} {t : ScopeTree}
    {value : Nat} (htype : type.isSigned = false)
    (h : c.readUnsigned type.size type.order = .ok (value, c')) :
    Decoding.integer type ⟨c, t⟩ = .ok value ⟨c', t⟩ := by
  unfold Decoding.integer
  rw [htype]
  show Decoding.read (fun c => (c.readUnsigned type.size type.order).map fun read =>
    ((read.1 : Int), read.2)) ⟨c, t⟩ = _
  unfold Decoding.read
  dsimp only
  rw [h]
  rfl

section

variable {α β : Type} {m : Decode α} {t : ScopeTree} {first : Nat} {bytes bytes' : List UInt8}
  {a : α}

namespace Takes

variable {results : α → Prop} {results' : β → Prop} {k : α → Decode β}

/-- What follows goes on from any of the results. -/
theorem bind (hm : Takes m t first bytes results)
    (hk : ∀ a t, results a → Takes (k a) t (first + bytes.length) bytes' results') :
    Takes (m >>= k) t first (bytes ++ bytes') results' := by
  intro c rest hposition hahead
  rw [List.append_assoc] at hahead
  obtain ⟨a, c₁, t₁, hrun₁, ha, hposition₁, hahead₁⟩ := hm c _ hposition hahead
  obtain ⟨b, c₂, t₂, hrun₂, hb, hposition₂, hahead₂⟩ := hk a t₁ ha c₁ rest hposition₁ hahead₁
  refine ⟨b, c₂, t₂, ?_, hb, ?_, hahead₂⟩
  · rw [bind_apply, hrun₁]
    exact hrun₂
  · rw [hposition₂, List.length_append, Nat.add_assoc]

theorem imp {results results' : α → Prop} (h : Takes m t first bytes results)
    (himp : ∀ a, results a → results' a) : Takes m t first bytes results' := by
  intro c rest hposition hahead
  obtain ⟨a, c', t', hrun, ha, hleft⟩ := h c rest hposition hahead
  exact ⟨a, c', t', hrun, himp a ha, hleft⟩

end Takes

namespace Decodes

variable {results : β → Prop} {k : α → Decode β}

theorem pure (a : α) : Decodes (Pure.pure a : Decode α) t first [] a :=
  fun c _ hposition hahead => ⟨a, c, t, rfl, rfl, hposition, hahead⟩

theorem bind (hm : Decodes m t first bytes a)
    (hk : ∀ t, Takes (k a) t (first + bytes.length) bytes' results) :
    Takes (m >>= k) t first (bytes ++ bytes') results := by
  refine Takes.bind hm ?_
  rintro _ t rfl
  exact hk t

theorem map (h : Decodes m t first bytes a) (f : α → β) :
    Decodes (f <$> m) t first bytes (f a) := by
  rw [map_eq_pure_bind, ← List.append_nil bytes]
  exact h.bind fun t => Decodes.pure (f a)

/-- What takes no bytes leaves all of them to what follows. -/
theorem andThen (hm : Decodes m t first [] a) (hk : ∀ t, Takes (k a) t first bytes results) :
    Takes (m >>= k) t first bytes results :=
  hm.bind hk

/-- What follows takes no bytes. -/
theorem before (hm : Decodes m t first bytes a)
    (hk : ∀ t, Takes (k a) t (first + bytes.length) [] results) :
    Takes (m >>= k) t first bytes results := by
  rw [← List.append_nil bytes]
  exact hm.bind hk

theorem lift {r : Except Error α} (h : r = .ok a) :
    Decodes (Preamble.lift r : Decode α) t first [] a := by
  rw [h]
  exact .pure a

theorem position : Decodes Decoding.position t first [] (8 * first) :=
  fun c _ hposition hahead =>
    ⟨8 * first, c, t, by rw [← hposition]; rfl, rfl, hposition, hahead⟩

theorem register (f : ScopeTree → ScopeTree) : Decodes (Decoding.register f) t first [] () :=
  fun c _ hposition hahead => ⟨(), c, f t, rfl, rfl, hposition, hahead⟩

theorem align {alignment : Nat} (h : alignment ∣ 8) :
    Decodes (Decoding.move (·.align alignment)) t first [] () := by
  intro c rest hposition hahead
  have haligned : c.position % alignment = 0 := by
    rw [hposition]
    exact Nat.mod_eq_zero_of_dvd (Nat.dvd_mul_right_of_dvd h first)
  refine ⟨(), c, t, ?_, rfl, hposition, hahead⟩
  unfold Decoding.move
  dsimp only
  rw [Cursor.align_of_aligned haligned]

theorem complete (node : NodeId) (value : Value) :
    Decodes (Decoding.complete node value) t first [] value :=
  (register (·.bind node value)).andThen fun _ => Decodes.pure value

theorem field {parent : NodeId} {name : String} {alignment : Nat} {body : NodeId → Decode Value}
    {value : Value} (h : alignment ∣ 8)
    (hbody : ∀ node t, Decodes (body node) t first bytes value) :
    Decodes (Decoding.field parent name alignment body) t first bytes value :=
  (align h).andThen fun t => fun c rest hposition hahead =>
    hbody t.next (t.addChild parent name) c rest hposition hahead

theorem integer {width : Width.Bytes} {value : Nat} (hvalue : value < 256 ^ width.count) :
    Decodes (Decoding.integer (.ofBytes width)) t first (Bits.word width.count value) value := by
  intro c rest hposition hahead
  obtain ⟨c', hread, hposition', hahead'⟩ :=
    hahead.readWord (by omega) width.count_pos width.count_le
  rw [Nat.mod_eq_of_lt hvalue] at hread
  refine ⟨value, c', t, integer_of_unsigned rfl hread, rfl, ?_, hahead'⟩
  rw [hposition', Bits.length_word]
  omega

theorem text {text : String} (hnul : '\x00' ∉ text.toList) :
    Decodes (Decoding.read Cursor.readString) t first (Text.utf8 text ++ [0]) text := by
  intro c rest hposition hahead
  rw [List.append_assoc] at hahead
  obtain ⟨c', hread, hposition', hahead'⟩ := hahead.readText (by omega) hnul
  refine ⟨text, c', t, ?_, rfl, ?_, hahead'⟩
  · unfold Decoding.read
    dsimp only
    rw [hread]
  · rw [hposition', List.length_append, List.length_singleton]
    omega

end Decodes

end

/-- What is written into a field: a number in some bytes or a text. -/
inductive Written where
  | number (width : Width.Bytes) (value : Nat)
  | text (content : String)

namespace Written

/-- The type of the field. -/
def type : Written → Declaration
  | number width _ => .ofBytes width
  | text _ => .string .utf8

/-- The bytes of the field. -/
def bytes : Written → List UInt8
  | number width value => Bits.word width.count value
  | text content => Text.utf8 content ++ [0]

/-- The value that the field has at a byte. -/
def value (first : Nat) : Written → Value
  | number width value => .integer (.ofBytes width) (8 * first) value
  | text content => .string .utf8 (8 * first) content

/-- Whether a number fits into its bytes and a text has no zero character, with which it would
end. -/
def Sound : Written → Prop
  | number width value => value < 256 ^ width.count
  | text content => '\x00' ∉ content.toList

/-- The types of some fields. -/
def types (fields : List (String × Written)) : List (String × Declaration) :=
  fields.map fun (name, written) => (name, written.type)

/-- The bytes of some fields, one after the other. -/
def allBytes (fields : List (String × Written)) : List UInt8 :=
  fields.flatMap fun (_, written) => written.bytes

/-- The values of some fields, the first of which starts at a byte. -/
def values (first : Nat) : List (String × Written) → List (String × Value)
  | [] => []
  | (name, written) :: rest =>
    (name, written.value first) :: values (first + written.bytes.length) rest

theorem alignment_type (written : Written) : written.type.alignment = 8 := by
  cases written <;> rfl

/-- A field is decoded from the bytes that are written for it. -/
theorem decodes {first : Nat} {written : Written} (h : written.Sound) (node : NodeId)
    (t : ScopeTree) :
    Decodes (written.type.decodeAt node) t first written.bytes (written.value first) := by
  cases written with
  | number width value =>
    have hvalue : value < 256 ^ width.count := h
    exact Decodes.position.andThen fun t =>
      (Decodes.integer hvalue).before fun t => Decodes.complete node _
  | text content =>
    have hnul : '\x00' ∉ content.toList := h
    exact Decodes.position.andThen fun t =>
      (Decodes.text hnul).before fun t => Decodes.complete node _

theorem decodes_fields {first : Nat} {fields : List (String × Written)}
    (h : ∀ f ∈ fields, f.2.Sound) (node : NodeId) (t : ScopeTree) :
    Decodes (Declaration.decodeFields (types fields) node) t first (allBytes fields)
      (values first fields) := by
  induction fields generalizing first t with
  | nil => exact .pure []
  | cons f rest ih =>
    obtain ⟨name, written⟩ := f
    have hfield : Decodes (Decoding.field node name written.type.alignment written.type.decodeAt) t
        first written.bytes (written.value first) := by
      refine .field (alignment_type written ▸ Nat.dvd_refl 8) fun node t => ?_
      exact decodes (h _ List.mem_cons_self) node t
    exact hfield.bind fun t =>
      (ih (fun f hf => h f (List.mem_cons_of_mem _ hf)) t).before fun t => Decodes.pure _

theorem fieldsAlignment_types (fields : List (String × Written)) :
    Declaration.fieldsAlignment (types fields) = 0 ∨
      Declaration.fieldsAlignment (types fields) = 8 := by
  induction fields with
  | nil => exact .inl rfl
  | cons f rest ih =>
    obtain ⟨name, written⟩ := f
    show max written.type.alignment (Declaration.fieldsAlignment (types rest)) = 0 ∨
      max written.type.alignment (Declaration.fieldsAlignment (types rest)) = 8
    rw [alignment_type]
    omega

/-- The type of a section that holds some fields. -/
def sectionType (fields : List (String × Written)) : StructType := ⟨⟨1, Nat.one_pos⟩, types fields⟩

/-- The value of a section that holds some fields. -/
def sectionValue (scope : DynamicScope) (first : Nat) (fields : List (String × Written)) : Value :=
  .struct ⟨1, Nat.one_pos⟩ (types fields) (8 * first) (ScopeTree.root scope) (values first fields)

/-- A section is decoded from the bytes that are written for its fields. -/
theorem decodes_section {fields : List (String × Written)} (h : ∀ f ∈ fields, f.2.Sound)
    (scope : DynamicScope) (first : Nat) (t : ScopeTree) :
    Decodes (Preamble.section? (some (sectionType fields)) scope) t first (allBytes fields)
      (some (sectionValue scope first fields)) := by
  have halignment : (sectionType fields).declaration.alignment ∣ 8 := by
    show max 1 (Declaration.fieldsAlignment (types fields)) ∣ 8
    rcases fieldsAlignment_types fields with heq | heq
    · rw [heq]
      decide
    · rw [heq]
      decide
  refine Decodes.map (a := sectionValue scope first fields) ?_ some
  refine (Decodes.align halignment).andThen fun t => (Decodes.register _).andThen fun t => ?_
  exact Decodes.position.andThen fun t =>
    (decodes_fields h _ t).before fun t => Decodes.complete _ _

/-- A field is found by its name. -/
theorem find?_values (first : Nat) (fields : List (String × Written)) (name : String) :
    ∃ offset, ((values first fields).find? (·.1 == name)).map Prod.snd =
      (fields.lookup name).map (value offset) := by
  induction fields generalizing first with
  | nil => exact ⟨0, rfl⟩
  | cons f rest ih =>
    obtain ⟨name', written⟩ := f
    rw [values, List.find?_cons, List.lookup_cons]
    dsimp only
    by_cases heq : name' = name
    · subst heq
      rw [BEq.rfl]
      exact ⟨first, rfl⟩
    · rw [beq_false_of_ne heq, beq_false_of_ne (Ne.symm heq)]
      exact ih _

theorem field?_sectionValue (scope : DynamicScope) (first : Nat) (fields : List (String × Written))
    (name : String) : ∃ offset, (sectionValue scope first fields).field? name =
      (fields.lookup name).map (value offset) :=
  find?_values first fields name

/-- A number of 64 bits is found by the name of its field. -/
theorem unsigned?_field? {fields : List (String × Written)} {name : String} {width : Width.Bytes}
    {number : Nat} (hfield : fields.lookup name = some (.number width number))
    (hlt : number < 2 ^ 64) (scope : DynamicScope) (first : Nat) :
    ((sectionValue scope first fields).field? name).bind Value.unsigned? = some number := by
  obtain ⟨offset, hfound⟩ := field?_sectionValue scope first fields name
  have hnumber : Width.unsigned? 64 (number : Int) = some number :=
    Width.unsigned?_eq_some.2 ⟨rfl, hlt⟩
  rw [hfound, hfield, Option.map_some, Option.bind_some, value, Value.unsigned?, Value.integer?,
    Option.bind_some, hnumber]

end Written

/-- A section that is not there takes no bytes. -/
theorem Decodes.noSection {scope : DynamicScope} {t : ScopeTree} {first : Nat} :
    Decodes (Preamble.section? none scope) t first [] none :=
  .pure none

end CommonTrace
