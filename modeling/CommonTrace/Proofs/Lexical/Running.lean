import CommonTrace.Proofs.Lexical.Roots
import CommonTrace.Stream.Packet

/-!
# Decoding step by step

What decoding with lexical scopes yields is told by what its parts yield, from the cursor that one
part leaves to the next. So a value is decoded without a tree of scopes, and the value that is
decoded in a tree is the same, up to where its parts are registered.
-/
namespace CommonTrace

namespace Lexical

variable {α β : Type} {around : Surroundings} {c c' c'' : Cursor} {name : String} {datum : Datum}

theorem bind_eq_ok {r : Reading α} {l : α → Reading β} {a : α} {b : β} (hr : r c = .ok (a, c'))
    (hl : l a c' = .ok (b, c'')) : (r >>= l) c = .ok (b, c'') := by
  show (r c).bind (fun x => l x.1 x.2) = _
  rw [hr]
  exact hl

theorem align_eq_ok {alignment : Nat} (h : c.align alignment = .ok c') :
    align alignment c = .ok ((), c') := by
  unfold align
  rw [h]
  rfl

theorem member_eq_ok {alignment : Nat} {body : Reading Datum} (halign : c.align alignment = .ok c')
    (hbody : body c' = .ok (datum, c'')) : member alignment body c = .ok (datum, c'') :=
  bind_eq_ok (align_eq_ok halign) hbody

theorem integer_eq_ok {type : IntegerType} {value : Nat} (htype : type.isSigned = false)
    (h : c.readUnsigned type.size type.order = .ok (value, c')) :
    integer type c = .ok ((value : Int), c') := by
  unfold integer
  rw [htype]
  show (c.readUnsigned type.size type.order).map (fun read => ((read.1 : Int), read.2)) = _
  rw [h]
  rfl

theorem decodeAt_integer {type : IntegerType} {value : Int} (h : integer type c = .ok (value, c')) :
    decodeAt (.integer type) around c = .ok (.integer type c.position value, c') := by
  rw [decodeAt]
  exact bind_eq_ok rfl (bind_eq_ok h rfl)

theorem decodeAt_enumeration {type : EnumType} {value : Int}
    (h : integer type.container c = .ok (value, c')) :
    decodeAt (.enumeration type) around c = .ok (.enumeration type c.position value, c') := by
  rw [decodeAt]
  exact bind_eq_ok rfl (bind_eq_ok h rfl)

theorem decodeAt_struct {minAlignment : Alignment} {types : List (String × Declaration)}
    {fields : List (String × Datum)} (h : decodeFields types around [] c = .ok (fields, c')) :
    decodeAt (.struct minAlignment types) around c =
      .ok (.struct minAlignment types c.position fields, c') := by
  rw [decodeAt]
  exact bind_eq_ok rfl (bind_eq_ok h rfl)

theorem decodeFields_nil {decoded : List (String × Datum)} :
    decodeFields [] around decoded c = .ok (decoded, c) := rfl

theorem decodeFields_cons {type : Declaration} {types : List (String × Declaration)}
    {decoded fields : List (String × Datum)}
    (hfirst : member type.alignment (decodeAt type (around.within decoded name)) c =
      .ok (datum, c'))
    (hrest : decodeFields types around (decoded ++ [(name, datum)]) c' = .ok (fields, c'')) :
    decodeFields ((name, type) :: types) around decoded c = .ok (fields, c'') := by
  rw [decodeFields]
  exact bind_eq_ok hfirst hrest

/-- A field can refer to one that is decoded before it and is a member of the same value. -/
theorem find?_of_member {outer : Surroundings} {members : List (String × Datum)} {field : String}
    (hplain : field ∉ DynamicScope.reserved) (hname : field ≠ name)
    (h : (Content.having members).below? [field] = some datum) :
    (outer.within members name).find? (.having []) [field] = some datum := by
  have hheld : (Content.holding members name (.having [])).below? [field] = some datum := by
    rw [Content.below?_cons, Content.member?_holding, if_neg hname]
    exact h
  show (if field ∈ DynamicScope.reserved then _
    else outer.nearest? [field] (.holding members name (.having []))) = _
  rw [if_neg hplain]
  cases outer with
  | root scope others => exact hheld
  | within outer members' name' =>
    rw [Surroundings.nearest?, hheld]
    rfl

/-- The alternative of a variant is that with the label of the tag. -/
theorem decodeAt_variant {tag : FieldPath} {options : List (String × Declaration)} {label : String}
    (htag : (around.find? (.having []) tag.tokens).bind Datum.enumLabel? = some (some label))
    (h : decodeOption options around tag label c = .ok (datum, c')) :
    decodeAt (.variant tag options) around c =
      .ok (.variant tag options c.position label datum, c') := by
  have hrefer : refer around tag .enumeration Datum.enumLabel? c = .ok (some label, c) := by
    unfold refer
    rw [htag]
    rfl
  rw [decodeAt]
  exact bind_eq_ok rfl (bind_eq_ok hrefer (bind_eq_ok h rfl))

theorem decodeOption_eq_ok {tag : FieldPath} {options : List (String × Declaration)}
    {label : String} {type : Declaration}
    (htype : Declaration.named? label options = some type)
    (h : member type.alignment (decodeAt type (around.within [] label)) c = .ok (datum, c')) :
    decodeOption options around tag label c = .ok (datum, c') := by
  induction options with
  | nil => cases htype
  | cons option rest ih =>
    obtain ⟨name, first⟩ := option
    rw [Declaration.named?, List.find?_cons] at htype
    rw [decodeOption]
    by_cases hname : name = label
    · rw [beq_iff_eq.2 hname] at htype
      cases htype
      rw [if_pos hname]
      exact h
    · rw [beq_false_of_ne hname] at htype
      rw [if_neg hname]
      exact ih htype

/-- The value that is decoded in a tree is the one that lexical scopes give, and afterwards the tree
holds it and what it held before. -/
theorem decodeRoot_of_reading {type : Declaration} {scope : DynamicScope}
    {others : DynamicScope → Content} {t : ScopeTree} (ht : Holds scope others t)
    (h : decodeRoot type scope others c = .ok (datum, c')) :
    ∃ value t', type.decodeRoot scope ⟨c, t⟩ = .ok value ⟨c', t'⟩ ∧ value.datum = datum := by
  have hrun := inStep_decodeRoot type scope others ⟨c, t⟩ ht
  cases hresult : type.decodeRoot scope ⟨c, t⟩ with
  | ok value s =>
    rw [hresult] at hrun
    obtain ⟨-, hread, rfl, -⟩ := hrun
    cases hread.symm.trans h
    exact ⟨value, s.scopes, rfl, rfl⟩
  | error e s =>
    rw [hresult] at hrun
    cases hrun.symm.trans h

/-- A tree that was built and in which the dynamic scopes hold some contents. -/
def Mirrored (t : ScopeTree) : Prop :=
  t.Built ∧ ∃ contents : DynamicScope → Content, ∀ scope,
    Mirrors t (ScopeTree.root scope) (contents scope)

theorem mirrored_baseScopes (metadata : Metadata) : Mirrored metadata.baseScopes :=
  ⟨built_baseScopes metadata, _, mirrors_baseScopes metadata⟩

namespace Mirrored

variable {s s' : Decoding} {scope : DynamicScope}

theorem holds {t : ScopeTree} (h : Mirrored t) (scope : DynamicScope) :
    ∃ others, Holds scope others t := by
  obtain ⟨hbuilt, contents, hmirrors⟩ := h
  exact ⟨contents, hbuilt.linked, fun other _ => hmirrors other⟩

theorem decodeRoot {type : Declaration} {value : Value} (h : Mirrored s.scopes)
    (hrun : type.decodeRoot scope s = .ok value s') : Mirrored s'.scopes := by
  obtain ⟨hbuilt, contents, hmirrors⟩ := h
  obtain ⟨hbuilt', hmirrors'⟩ := mirrors_decodeRoot hbuilt (fun other _ => hmirrors other) hrun
  exact ⟨hbuilt', _, hmirrors'⟩

theorem section? {type : Option StructType} {value : Option Value} (h : Mirrored s.scopes)
    (hrun : Preamble.section? type scope s = .ok value s') : Mirrored s'.scopes := by
  cases type with
  | none =>
    cases hrun
    exact h
  | some type =>
    obtain ⟨value, -, hvalue⟩ := Preamble.section?_eq_ok hrun
    exact h.decodeRoot hvalue

theorem lift {α : Type} {r : Except Error α} {a : α} (h : Mirrored s.scopes)
    (hrun : Preamble.lift r s = .ok a s') : Mirrored s'.scopes := by
  obtain ⟨-, rfl⟩ := Preamble.lift_eq_ok hrun
  exact h

theorem decodeContext {metadata : Metadata} {id : Option Nat} {preamble : Preamble}
    (h : Mirrored s.scopes) (hrun : Preamble.decodeContext metadata id s = .ok preamble s') :
    Mirrored s'.scopes := by
  obtain ⟨streamClass, s₁, hclass, hrun⟩ := Decoding.bind_eq_ok hrun
  obtain ⟨context, s₂, hcontext, hrun⟩ := Decoding.bind_eq_ok hrun
  cases hrun
  exact (h.lift hclass).section? hcontext

/-- The tree that the preamble of a packet leaves mirrors what was decoded. -/
theorem decode {metadata : Metadata} {offset : Nat} {preamble : Preamble} (h : Mirrored s.scopes)
    (hrun : Preamble.decode metadata offset s = .ok preamble s') : Mirrored s'.scopes := by
  obtain ⟨header, s₁, hheader, hrun⟩ := Decoding.bind_eq_ok hrun
  cases header with
  | none => exact (h.section? hheader).decodeContext hrun
  | some header =>
    obtain ⟨id, s₂, hid, hrun⟩ := Decoding.bind_eq_ok hrun
    exact ((h.section? hheader).lift hid).decodeContext hrun

end Mirrored

end Lexical

namespace Datum

/-- A field of a struct by name. -/
def field? (d : Datum) (name : String) : Option Datum :=
  match d with
  | struct _ _ _ fields => (fields.find? (·.1 == name)).map (·.2)
  | _ => none

/-- The type and the value of an integer. -/
def typed? : Datum → Option (IntegerType × Int)
  | integer type _ value => some (type, value)
  | _ => none

/-- The alternative of a variant. -/
def current? : Datum → Option Datum
  | variant _ _ _ _ current => some current
  | _ => none

/-- The number of an event's class and the field that holds its time. Those of the struct selected
by a variant `v` of the header come before those of the header itself. -/
def headerFields (header : Datum) : Option Nat × Option (IntegerType × Int) :=
  let selected := (header.field? "v").bind current?
  let id? (d : Datum) := (d.field? "id").bind unsigned?
  let time? (d : Datum) := (d.field? "timestamp").bind typed?
  ((selected.bind id?).or (id? header), (selected.bind time?).or (time? header))

end Datum

theorem Value.field?_datum (value : Value) (name : String) :
    value.datum.field? name = (value.field? name).map datum := by
  cases value with
  | struct minAlignment types offset node fields =>
    show ((fieldData fields).find? (·.1 == name)).map (·.2) =
      ((fields.find? (·.1 == name)).map (·.2)).map datum
    induction fields with
    | nil => rfl
    | cons field rest ih =>
      obtain ⟨name', value⟩ := field
      rw [fieldData, List.find?_cons, List.find?_cons]
      dsimp only
      cases name' == name with
      | true => rfl
      | false => exact ih
  | _ => rfl

/-- The type and the value of the field that holds a time. -/
def Value.time? (value : Value) : Option (IntegerType × Int) :=
  match value.field? "timestamp" with
  | some (.integer type _ value) => some (type, value)
  | _ => none

theorem Value.time?_datum (value : Value) :
    (value.datum.field? "timestamp").bind Datum.typed? = value.time? := by
  rw [value.field?_datum]
  unfold time?
  cases value.field? "timestamp" with
  | none => rfl
  | some field => cases field <;> rfl

theorem Value.id?_datum (value : Value) :
    (value.datum.field? "id").bind Datum.unsigned? = (value.field? "id").bind unsigned? := by
  rw [value.field?_datum, Option.bind_map]
  exact congrArg _ (funext unsigned?_datum)

/-- What the header of an event tells does not depend on where its parts are registered. -/
theorem OpenPacket.headerFields_datum (header : Value) :
    header.datum.headerFields = headerFields header := by
  unfold Datum.headerFields headerFields
  dsimp only
  rw [header.field?_datum "v"]
  cases header.field? "v" with
  | none => exact Prod.ext header.id?_datum header.time?_datum
  | some v =>
    cases v with
    | variant tag options offset node label current =>
      exact Prod.ext (congrArg₂ Option.or current.id?_datum header.id?_datum)
        (congrArg₂ Option.or current.time?_datum header.time?_datum)
    | _ => exact Prod.ext header.id?_datum header.time?_datum

end CommonTrace
