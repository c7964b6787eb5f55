import CommonTrace.Proofs.Decoding.Parts

/-!
# Decoding that succeeded

A value is decoded at a node, from a state of decoding that it leaves as another one. So are its
members, each after the one before, in a node of its own and from the next position that is
aligned for it. What a value of each kind is made of, and what decided it, is told here once. What
then holds of every value whose members have it holds of all values.
-/
namespace CommonTrace

theorem Value.sizeOf_lt_of_mem_members {v : Value} {member : String × Value}
    (h : member ∈ v.members) : sizeOf member.2 < sizeOf v := by
  have hmember : sizeOf member = 1 + sizeOf member.1 + sizeOf member.2 := by
    cases member
    simp
  cases v with
  | struct minAlignment types offset node fields =>
    have hfields := List.sizeOf_lt_of_mem (show member ∈ fields from h)
    simp only [struct.sizeOf_spec]
    omega
  | array length element offset node elements =>
    have helements := List.sizeOf_lt_of_mem (mem_of_mem_indexed h)
    simp only [array.sizeOf_spec]
    omega
  | sequence length element offset node elements =>
    have helements := List.sizeOf_lt_of_mem (mem_of_mem_indexed h)
    simp only [sequence.sizeOf_spec]
    omega
  | variant tag options offset node label current =>
    obtain rfl := List.mem_singleton.1 h
    simp only [variant.sizeOf_spec]
    omega
  | _ => simp [members] at h

/-- The number that a bit field holds as an integer of a type. -/
def IntegerType.ofBits (type : IntegerType) (raw : Nat) : Int :=
  if type.isSigned then Bits.signed type.size raw else raw

open Decoding

/-- Where a value is decoded: as a field of a node, or as the content of a dynamic scope. -/
inductive Place where
  | field (parent : NodeId) (name : String)
  | content (scope : DynamicScope)

namespace Place

/-- Decodes a value at a place. -/
def decode (type : Declaration) : Place → Decode Value
  | field parent name => type.decode parent name
  | content scope => type.decodeRoot scope

/-- The node of a place, once it is there. -/
def node (t : ScopeTree) : Place → NodeId
  | field _ _ => t.next
  | content scope => ScopeTree.root scope

/-- The tree in which the node of a place is there, with nothing below it. -/
def prepare (t : ScopeTree) : Place → ScopeTree
  | field parent name => t.addChild parent name
  | content scope => t.clear (ScopeTree.root scope)

end Place

/-- A value that was decoded at a node, with the states of decoding before and after. -/
structure Decoded where
  type : Declaration
  node : NodeId
  before : Decoding
  value : Value
  after : Decoding
  run : type.decodeAt node before = .ok value after

namespace Decoded

/-- The position that a value was decoded from. -/
def first (d : Decoded) : Nat := d.before.cursor.position

/-- The position right after a value. -/
def last (d : Decoded) : Nat := d.after.cursor.position

/-- A value is decoded at a place: the cursor moves to the alignment of its type, and the node of
the place is made ready. -/
structure Starts (d : Decoded) (place : Place) (s : Decoding) : Prop where
  aligned : s.cursor.align d.type.alignment = .ok d.before.cursor
  node : d.node = place.node s.scopes
  scopes : d.before.scopes = place.prepare s.scopes

/-- Values that are decoded as fields of a node, each after the one before. -/
inductive InTurn (parent : NodeId) : Decoding → List (String × Decoded) → Decoding → Prop
  | nil (s : Decoding) : InTurn parent s [] s
  | cons {s s' : Decoding} {name : String} {d : Decoded} {rest : List (String × Decoded)}
      (hd : d.Starts (.field parent name) s) (hrest : InTurn parent d.after rest s') :
      InTurn parent s ((name, d) :: rest) s'

/-- A value that is not made of others has no members; those of any other value are decoded in turn
at its node before it is bound. -/
inductive Holds (d : Decoded) : List (String × Decoded) → Prop
  | nothing (hnode : d.value.node? = none) : d.Holds []
  | inTurn {members : List (String × Decoded)} {s : Decoding} (hnode : d.value.node? = some d.node)
      (hvalues : members.map (fun m => (m.1, m.2.value)) = d.value.members)
      (hturn : InTurn d.node d.before members s)
      (hafter : d.after = ⟨s.cursor, s.scopes.bind d.node d.value⟩) : d.Holds members

/-- What a value of each kind is made of, and what decided it. -/
inductive Shape (d : Decoded) : Prop
  | integer (type : IntegerType) (raw : Nat) (htype : d.type = .integer type)
      (hvalue : d.value = .integer type d.first (type.ofBits raw))
      (hread : d.before.cursor.readUnsigned type.size type.order = .ok (raw, d.after.cursor))
  | float (type : FloatType) (x : Binary64) (htype : d.type = .float type)
      (hvalue : d.value = .float type d.first x)
      (hread : d.before.cursor.readFloat type.precision.exponentBits type.precision.mantissaBits
        type.order = .ok (x, d.after.cursor))
  | enumeration (type : EnumType) (raw : Nat) (htype : d.type = .enumeration type)
      (hvalue : d.value = .enumeration type d.first (type.container.ofBits raw))
      (hread : d.before.cursor.readUnsigned type.container.size type.container.order =
        .ok (raw, d.after.cursor))
  | string (encoding : Encoding) (text : String) (htype : d.type = .string encoding)
      (hvalue : d.value = .string encoding d.first text)
      (hread : d.before.cursor.readString = .ok (text, d.after.cursor))
  | struct (minAlignment : Alignment) (types : List (String × Declaration))
      (fields : List (String × Value)) (members : List (String × Decoded))
      (htype : d.type = .struct minAlignment types)
      (hvalue : d.value = .struct minAlignment types d.first d.node fields)
      (hmembers : d.Holds members) (htypes : members.map (fun m => (m.1, m.2.type)) = types)
  | array (length : Nat) (element : Declaration) (elements : List Value)
      (members : List (String × Decoded)) (htype : d.type = .array length element)
      (hvalue : d.value = .array length element d.first d.node elements)
      (hmembers : d.Holds members) (hlength : elements.length = length)
      (htypes : ∀ m ∈ members, m.2.type = element)
  | sequence (length : FieldPath) (element : Declaration) (found : Value)
      (elements : List Value) (members : List (String × Decoded))
      (htype : d.type = .sequence length element)
      (hvalue : d.value = .sequence length element d.first d.node elements)
      (hfound : d.before.scopes.lookupTokens? d.node length.tokens = some found)
      (hmembers : d.Holds members) (hlength : found.unsigned? = some elements.length)
      (htypes : ∀ m ∈ members, m.2.type = element)
  | variant (tag : FieldPath) (options : List (String × Declaration)) (found : Value)
      (label : String) (member : Decoded) (htype : d.type = .variant tag options)
      (hvalue : d.value = .variant tag options d.first d.node label member.value)
      (hfound : d.before.scopes.lookupTokens? d.node tag.tokens = some found)
      (hmembers : d.Holds [(label, member)]) (hlabel : found.enumLabel? = some (some label))
      (hoption : Declaration.named? label options = some member.type)

/-- What is told of a value and its members holds of a value, of its members, of their members and
so on. -/
inductive Throughout (P : Decoded → List (String × Decoded) → Prop) : Decoded → Prop
  | intro {d : Decoded} {members : List (String × Decoded)} (hmembers : d.Holds members)
      (h : P d members) (hrest : ∀ m ∈ members, m.2.Throughout P) : d.Throughout P

/-- What holds of a value if it holds of its members holds of every value. -/
theorem induction {motive : Decoded → Prop}
    (h : ∀ d, (∀ members, d.Holds members → ∀ m ∈ members, motive m.2) → motive d)
    (d : Decoded) : motive d := by
  refine h d fun members hmembers m hm => ?_
  have hlt : sizeOf m.2.value < sizeOf d.value := by
    cases hmembers with
    | nothing => cases hm
    | inTurn _ hvalues =>
      have hmem : (m.1, m.2.value) ∈ d.value.members := by
        rw [← hvalues]
        exact List.mem_map_of_mem hm
      exact Value.sizeOf_lt_of_mem_members hmem
  exact induction h m.2
termination_by sizeOf d.value

/-- What can be told of a value and its members is told throughout, also if it needs something of
the value that its members have in turn. -/
theorem throughout {P : Decoded → List (String × Decoded) → Prop} {Q : Decoded → Prop}
    (h : ∀ d, Q d → ∃ members, d.Holds members ∧ P d members ∧ ∀ m ∈ members, Q m.2)
    {d : Decoded} (hd : Q d) : d.Throughout P := by
  induction d using induction with
  | h d ih =>
    obtain ⟨members, hmembers, hP, hQ⟩ := h d hd
    exact .intro hmembers hP fun m hm => ih members hmembers m hm (hQ m hm)

end Decoded

namespace Decoding

variable {parent : NodeId} {name : String} {s s' : Decoding} {value : Value}

theorem integer_eq_ok {type : IntegerType} {n : Int} (h : integer type s = .ok n s') :
    ∃ raw, n = type.ofBits raw ∧
      s.cursor.readUnsigned type.size type.order = .ok (raw, s'.cursor) := by
  unfold integer at h
  split at h
  next hsigned =>
    obtain ⟨next, hread, rfl⟩ := read_eq_ok h
    obtain ⟨⟨raw, _⟩, hraw, ⟨⟩⟩ := Cursor.map_eq_ok hread
    exact ⟨raw, by rw [IntegerType.ofBits, if_pos hsigned], hraw⟩
  next hunsigned =>
    obtain ⟨next, hread, rfl⟩ := read_eq_ok h
    obtain ⟨⟨raw, _⟩, hraw, ⟨⟩⟩ := Cursor.map_eq_ok hread
    exact ⟨raw, by rw [IntegerType.ofBits, if_neg hunsigned], hraw⟩

theorem field_eq_ok {type : Declaration}
    (h : field parent name type.alignment type.decodeAt s = .ok value s') :
    ∃ d : Decoded, d.Starts (.field parent name) s ∧ d.type = type ∧ d.value = value ∧
      d.after = s' := by
  obtain ⟨_, s₁, hmove, hrest⟩ := bind_eq_ok h
  obtain ⟨next, hnext, rfl⟩ := move_eq_ok hmove
  rw [enter_apply] at hrest
  exact ⟨⟨type, _, _, value, s', hrest⟩, ⟨hnext, rfl, rfl⟩, rfl, rfl, rfl⟩

/-- Elements are decoded in turn under their indices. -/
theorem elements_eq_ok {element : Declaration} {node : NodeId} {index count : Nat}
    {decoded values : List Value}
    (h : elements (fun name => field node name element.alignment element.decodeAt) index count
      decoded s = .ok values s') :
    ∃ members, Decoded.InTurn node s members s' ∧ members.length = count ∧
      (∀ m ∈ members, m.2.type = element) ∧
      values = decoded.reverse ++ members.map (·.2.value) ∧
      members.map (·.1) = (List.range' index count).map toString := by
  induction count generalizing index decoded s with
  | zero =>
    cases h
    exact ⟨[], .nil _, rfl, by simp, by simp, rfl⟩
  | succ count ih =>
    obtain ⟨value, s₁, hvalue, hrest⟩ := bind_eq_ok h
    obtain ⟨d, hstarts, htype, rfl, rfl⟩ := field_eq_ok hvalue
    obtain ⟨members, hturn, hlength, htypes, hvalues, hnames⟩ := ih hrest
    refine ⟨(toString index, d) :: members, .cons hstarts hturn, by simp [hlength], ?_,
      by simp [hvalues], by simp [hnames, List.range'_succ]⟩
    simpa [htype] using htypes

end Decoding

namespace Declaration

variable {node : NodeId} {s s' : Decoding} {value : Value}

theorem decodeFields_eq_ok {types : List (String × Declaration)} {fields : List (String × Value)}
    (h : decodeFields types node s = .ok fields s') :
    ∃ members, Decoded.InTurn node s members s' ∧
      members.map (fun m => (m.1, m.2.type)) = types ∧
      members.map (fun m => (m.1, m.2.value)) = fields := by
  induction types generalizing s fields with
  | nil =>
    cases h
    exact ⟨[], .nil _, rfl, rfl⟩
  | cons named types ih =>
    obtain ⟨name, type⟩ := named
    obtain ⟨value, s₁, hvalue, hrest⟩ := bind_eq_ok h
    obtain ⟨values, s₂, hvalues, hdone⟩ := bind_eq_ok hrest
    cases hdone
    obtain ⟨d, hstarts, htype, rfl, rfl⟩ := field_eq_ok hvalue
    obtain ⟨members, hturn, htypes, hfields⟩ := ih hvalues
    exact ⟨(name, d) :: members, .cons hstarts hturn, by simp [htype, htypes], by simp [hfields]⟩

theorem decodeOption_eq_ok {options : List (String × Declaration)} {tag : FieldPath}
    {label : String} (h : decodeOption options node tag label s = .ok value s') :
    ∃ d : Decoded, d.Starts (.field node label) s ∧ named? label options = some d.type ∧
      d.value = value ∧ d.after = s' := by
  induction options with
  | nil => cases h
  | cons named options ih =>
    obtain ⟨name, type⟩ := named
    rw [decodeOption] at h
    split at h
    next hname =>
      obtain ⟨d, hstarts, htype, hvalue, hafter⟩ := field_eq_ok h
      exact ⟨d, hstarts, by simp [named?, hname, htype], hvalue, hafter⟩
    next hname =>
      obtain ⟨d, hstarts, htype, hvalue, hafter⟩ := ih h
      refine ⟨d, hstarts, ?_, hvalue, hafter⟩
      rw [← htype]
      simp [named?, hname]

end Declaration

namespace Decoding

/-- Elements decoded from the first one on are members under their indices. -/
theorem elements_eq_indexed {element : Declaration} {node : NodeId} {count : Nat}
    {s s' : Decoding} {values : List Value}
    (h : elements (fun name => field node name element.alignment element.decodeAt) 0 count []
      s = .ok values s') :
    ∃ members, Decoded.InTurn node s members s' ∧ values.length = count ∧
      (∀ m ∈ members, m.2.type = element) ∧
      members.map (fun m => (m.1, m.2.value)) = Value.indexed values := by
  obtain ⟨members, hturn, hlength, htypes, hvalues, hnames⟩ := elements_eq_ok h
  rw [List.reverse_nil, List.nil_append] at hvalues
  refine ⟨members, hturn, by simp [hvalues, hlength], htypes, ?_⟩
  apply List.ext_getElem
  · simp [Value.indexed, hvalues]
  · intro i hi _
    have hi' : i < members.length := by simpa using hi
    have hname := congrArg (·[i]?) hnames
    have hname' : members[i].1 = toString i := by simpa [hi', hlength ▸ hi'] using hname
    simp [Value.indexed, hvalues, hname']

end Decoding

namespace Decoded

/-- A value is bound to its node once its members are decoded. -/
theorem shape (d : Decoded) : d.Shape := by
  obtain ⟨type, node, before, value, after, run⟩ := d
  cases type with
  | integer type =>
    obtain ⟨_, _, hposition, hrest⟩ := bind_eq_ok run
    cases hposition
    obtain ⟨n, s, hn, hdone⟩ := bind_eq_ok hrest
    obtain ⟨raw, rfl, hread⟩ := integer_eq_ok hn
    cases hdone
    exact .integer type raw rfl rfl hread
  | float type =>
    obtain ⟨_, _, hposition, hrest⟩ := bind_eq_ok run
    cases hposition
    obtain ⟨x, s, hx, hdone⟩ := bind_eq_ok hrest
    obtain ⟨next, hread, rfl⟩ := read_eq_ok hx
    cases hdone
    exact .float type x rfl rfl hread
  | enumeration type =>
    obtain ⟨_, _, hposition, hrest⟩ := bind_eq_ok run
    cases hposition
    obtain ⟨n, s, hn, hdone⟩ := bind_eq_ok hrest
    obtain ⟨raw, rfl, hread⟩ := integer_eq_ok hn
    cases hdone
    exact .enumeration type raw rfl rfl hread
  | string encoding =>
    obtain ⟨_, _, hposition, hrest⟩ := bind_eq_ok run
    cases hposition
    obtain ⟨text, s, htext, hdone⟩ := bind_eq_ok hrest
    obtain ⟨next, hread, rfl⟩ := read_eq_ok htext
    cases hdone
    exact .string encoding text rfl rfl hread
  | struct minAlignment types =>
    obtain ⟨_, _, hposition, hrest⟩ := bind_eq_ok run
    cases hposition
    obtain ⟨fields, s, hfields, hdone⟩ := bind_eq_ok hrest
    cases hdone
    obtain ⟨members, hturn, htypes, hvalues⟩ := Declaration.decodeFields_eq_ok hfields
    exact .struct minAlignment types fields members rfl rfl (.inTurn rfl hvalues hturn rfl) htypes
  | array length element =>
    obtain ⟨_, _, hposition, hrest⟩ := bind_eq_ok run
    cases hposition
    obtain ⟨elements, s, helements, hdone⟩ := bind_eq_ok hrest
    cases hdone
    obtain ⟨members, hturn, hlength, htypes, hvalues⟩ := elements_eq_indexed helements
    exact .array length element elements members rfl rfl (.inTurn rfl hvalues hturn rfl) hlength
      htypes
  | sequence length element =>
    obtain ⟨_, _, hposition, hrest⟩ := bind_eq_ok run
    cases hposition
    obtain ⟨count, s₁, hcount, hrest⟩ := bind_eq_ok hrest
    obtain ⟨rfl, found, hfound, hselect⟩ := refer_eq_ok hcount
    obtain ⟨elements, s, helements, hdone⟩ := bind_eq_ok hrest
    cases hdone
    obtain ⟨members, hturn, hlength, htypes, hvalues⟩ := elements_eq_indexed helements
    exact .sequence length element found elements members rfl rfl hfound
      (.inTurn rfl hvalues hturn rfl) (hlength ▸ hselect) htypes
  | variant tag options =>
    obtain ⟨_, _, hposition, hrest⟩ := bind_eq_ok run
    cases hposition
    obtain ⟨selected, s₁, hselected, hrest⟩ := bind_eq_ok hrest
    obtain ⟨rfl, found, hfound, hselect⟩ := refer_eq_ok hselected
    cases selected with
    | none => cases hrest
    | some label =>
      obtain ⟨current, s, hcurrent, hdone⟩ := bind_eq_ok hrest
      cases hdone
      obtain ⟨member, hstarts, hoption, rfl, rfl⟩ := Declaration.decodeOption_eq_ok hcurrent
      exact .variant tag options found label member rfl rfl hfound
        (.inTurn rfl rfl (.cons hstarts (.nil _)) rfl) hselect hoption

/-- A value keeps its type. -/
theorem declaration_eq (d : Decoded) : d.value.declaration = d.type := by
  cases d.shape <;> simp only [*, Value.declaration]

/-- A value keeps the position that it was decoded from. -/
theorem offset_eq (d : Decoded) : d.value.offset = d.first := by
  cases d.shape <;> simp only [*, Value.offset]

end Decoded

/-- What is decoded at a place starts there. -/
theorem Place.decode_eq_ok {place : Place} {type : Declaration} {s s' : Decoding} {value : Value}
    (h : place.decode type s = .ok value s') :
    ∃ d : Decoded, d.Starts place s ∧ d.type = type ∧ d.value = value ∧ d.after = s' := by
  cases place with
  | field parent name => exact field_eq_ok h
  | content scope =>
    obtain ⟨next, hnext, hrun⟩ := type.decodeRoot_eq_ok h
    exact ⟨⟨type, _, _, value, s', hrun⟩, ⟨hnext, rfl, rfl⟩, rfl, rfl, rfl⟩

end CommonTrace
