import CommonTrace.Proofs.Event.Flattening

/-!
# Attributes of a section

The attributes of a section are named by the names on the way to them, joined by points. As long as
the names in a section have no points in themselves, a name can be taken apart again, so that each
scalar of the section has a name of its own.
-/
namespace CommonTrace

theorem Text.splitDots_joinDots {names : List String} (hne : names ≠ [])
    (h : ∀ name ∈ names, '.' ∉ name.toList) : splitDots (joinDots names) = names := by
  have hdots : ∀ name ∈ names.map String.toList, '.' ∉ name := by
    intro name hname
    obtain ⟨text, htext, rfl⟩ := List.mem_map.1 hname
    exact h text htext
  have hsplit : (joinDots names).toList.splitOn '.' = names.map String.toList := by
    rw [joinDots, String.toList_intercalate]
    exact List.splitOn_intercalate '.' hdots (by simpa using hne)
  rw [splitDots, hsplit, List.map_map]
  simp

namespace Value

mutual

/-- The names of the fields and the labels of the alternatives in a value. -/
def givenNames : Value → List String
  | struct _ _ _ _ fields => fieldNames fields
  | array _ _ _ _ elements => elementNames elements
  | sequence _ _ _ _ elements => elementNames elements
  | variant _ _ _ _ label current => label :: current.givenNames
  | _ => []

/-- The names of some fields, and those in their values. -/
def fieldNames : List (String × Value) → List String
  | [] => []
  | (name, value) :: rest => name :: (value.givenNames ++ fieldNames rest)

/-- The names in some elements. -/
def elementNames : List Value → List String
  | [] => []
  | value :: rest => value.givenNames ++ elementNames rest

end

/-- Whether no name that is given in a value has a point in it. -/
def Undotted (v : Value) : Prop := ∀ name ∈ v.givenNames, '.' ∉ name.toList

variable {v part : Value} {names ending : List String} {name : String} {m : Value}
  {a : AttributeValue} {fields : List (String × Value)} {elements : List Value}

instance : Decidable v.Undotted := List.decidableBAll _ _

theorem of_mem_fieldNames (h : (name, m) ∈ fields) :
    name ∈ fieldNames fields ∧ m.givenNames ⊆ fieldNames fields := by
  induction fields with
  | nil => cases h
  | cons field rest ih =>
    rw [fieldNames]
    rcases List.mem_cons.1 h with rfl | h
    · exact ⟨List.mem_cons_self, fun n hn => List.mem_cons_of_mem _ (List.mem_append_left _ hn)⟩
    · obtain ⟨hname, hm⟩ := ih h
      exact ⟨List.mem_cons_of_mem _ (List.mem_append_right _ hname),
        fun n hn => List.mem_cons_of_mem _ (List.mem_append_right _ (hm hn))⟩

theorem of_mem_elementNames (h : m ∈ elements) : m.givenNames ⊆ elementNames elements := by
  induction elements with
  | nil => cases h
  | cons element rest ih =>
    rw [elementNames]
    rcases List.mem_cons.1 h with rfl | h
    · exact List.subset_append_left _ _
    · exact fun n hn => List.mem_append_right _ (ih h hn)

theorem dot_notMem_toString (n : Nat) : '.' ∉ (toString n).toList := by
  intro h
  have hdigit := Nat.isDigit_of_mem_toDigits (b := 10) (n := n) (c := '.') (by decide) (by decide)
    (by simpa using h)
  cases hdigit

theorem exists_index_of_mem_indexed (h : (name, m) ∈ indexed elements) :
    ∃ i : Nat, name = toString i := by
  obtain ⟨i, hi, heq⟩ := List.mem_mapIdx.1 h
  exact ⟨i, (Prod.mk.inj heq).1.symm⟩

/-- The name of a member is given or an index, and the names in the member are given as well. -/
theorem Undotted.member (h : v.Undotted) (hm : (name, m) ∈ v.members) :
    '.' ∉ name.toList ∧ m.Undotted := by
  cases v with
  | struct minAlignment types offset node fields =>
    obtain ⟨hname, hnames⟩ := of_mem_fieldNames (show (name, m) ∈ fields from hm)
    exact ⟨h name (by rwa [givenNames]), fun n hn => h n (by rw [givenNames]; exact hnames hn)⟩
  | array length element offset node elements =>
    have hmem := mem_of_mem_indexed hm
    obtain ⟨i, rfl⟩ := exists_index_of_mem_indexed hm
    exact ⟨dot_notMem_toString i,
      fun n hn => h n (by rw [givenNames]; exact of_mem_elementNames hmem hn)⟩
  | sequence length element offset node elements =>
    have hmem := mem_of_mem_indexed hm
    obtain ⟨i, rfl⟩ := exists_index_of_mem_indexed hm
    exact ⟨dot_notMem_toString i,
      fun n hn => h n (by rw [givenNames]; exact of_mem_elementNames hmem hn)⟩
  | variant tag options offset node label current =>
    obtain ⟨⟩ := List.mem_singleton.1 hm
    exact ⟨h name (by rw [givenNames]; exact List.mem_cons_self),
      fun n hn => h n (by rw [givenNames]; exact List.mem_cons_of_mem _ hn)⟩
  | _ => cases hm

theorem Undotted.reached (h : v.Undotted) (hreached : v.Reached names part) :
    ∀ name ∈ names, '.' ∉ name.toList := by
  induction hreached with
  | self v => simp
  | member _ hm _ ih =>
    obtain ⟨hname, hundotted⟩ := h.member hm
    rw [List.forall_mem_cons]
    exact ⟨hname, ih hundotted⟩

/-- The only ending is that of a label. -/
theorem ending_of_mem_own (h : (ending, a) ∈ v.own) : ending = [] ∨ ending = ["label"] := by
  have hsingle {a' : AttributeValue} (h : (ending, a) ∈ [([], a')]) : ending = [] :=
    (Prod.mk.inj (List.mem_singleton.1 h)).1
  cases v with
  | enumeration type offset value =>
    rw [own] at h
    split at h
    · exact .inl (hsingle h)
    · rcases List.mem_pair.1 h with heq | heq
      · exact .inl (Prod.mk.inj heq).1
      · exact .inr (Prod.mk.inj heq).1
  | array length element =>
    rw [own] at h
    split at h
    · exact .inl (hsingle h)
    · cases h
  | sequence length element =>
    rw [own] at h
    split at h
    · exact .inl (hsingle h)
    · cases h
  | struct => cases h
  | variant => cases h
  | _ => exact .inl (hsingle h)

/-- What is decoded as the content of a scope. -/
def IsContent (v : Value) : Prop :=
  ∃ (type : StructType) (scope : DynamicScope) (s s' : Decoding), type.declaration.WellFormed ∧
    type.declaration.decodeRoot scope s = .ok v s'

/-- What a section has as its attributes: one for each way that a part of it is shown by itself,
named by what leads to the part, joined by points. -/
structure Flattened (v : Value) (pairs : List (String × AttributeValue)) : Prop where
  nodup : (pairs.map Prod.fst).Nodup
  mem_iff : ∀ key a, (key, a) ∈ pairs ↔ ∃ names part ending, v.Reached names part ∧
    (ending, a) ∈ part.own ∧ key = Text.joinDots (names ++ ending)
  unique : ∀ names part ending a names' part' ending' a', v.Reached names part →
    (ending, a) ∈ part.own → v.Reached names' part' → (ending', a') ∈ part'.own →
    Text.joinDots (names ++ ending) = Text.joinDots (names' ++ ending') →
    names = names' ∧ part = part' ∧ ending = ending' ∧ a = a'

/-- A struct is not shown by itself, so that some name leads to what is shown. -/
theorem ne_nil_of_reached (hv : v.own = []) (h : v.Reached names part)
    (hown : (ending, a) ∈ part.own) : names ++ ending ≠ [] := by
  cases h with
  | self =>
    rw [hv] at hown
    cases hown
  | member => exact List.cons_ne_nil _ _

/-- The names that lead to what is shown can be taken apart again. -/
theorem joinDots_injective_of_reached {names' ending' : List String} {part' : Value}
    {a' : AttributeValue} (hv : v.own = []) (hnames : v.Undotted) (h : v.Reached names part)
    (hown : (ending, a) ∈ part.own) (h' : v.Reached names' part')
    (hown' : (ending', a') ∈ part'.own)
    (heq : Text.joinDots (names ++ ending) = Text.joinDots (names' ++ ending')) :
    names ++ ending = names' ++ ending' := by
  have hdots {names ending : List String} {part : Value} {a : AttributeValue}
      (h : v.Reached names part) (hown : (ending, a) ∈ part.own) :
      Text.splitDots (Text.joinDots (names ++ ending)) = names ++ ending := by
    refine Text.splitDots_joinDots (ne_nil_of_reached hv h hown) fun name hname => ?_
    rcases List.mem_append.1 hname with hname | hname
    · exact hnames.reached h name hname
    · rcases ending_of_mem_own hown with rfl | rfl
      · cases hname
      · rw [List.mem_singleton.1 hname]
        decide
  rw [← hdots h hown, heq, hdots h' hown']

theorem sectionAttributes_of_fields (h : v.fields? = some fields) :
    v.sectionAttributes = v.leaves.map fun (names, a) => (Text.joinDots names, a) := by
  cases v with
  | struct => rw [sectionAttributes, leaves]
  | _ => cases h

/-- A struct without repetitions of names has an attribute for each thing that is shown in it. -/
theorem flattened_of_distinct (hfields : v.fields? = some fields) (hdistinct : v.Distinct)
    (hnames : v.Undotted) : v.Flattened v.sectionAttributes := by
  have hown : v.own = [] := by
    cases v with
    | struct => rfl
    | _ => cases hfields
  rw [sectionAttributes_of_fields hfields]
  refine ⟨?_, fun key a => ?_, ?_⟩
  · have hkeys : (v.leaves.map fun (names, a) => (Text.joinDots names, a)).map Prod.fst =
        (v.leaves.map Prod.fst).map Text.joinDots := by
      simp only [List.map_map]
      rfl
    rw [hkeys]
    refine (nodup_leaves hdistinct).map_on fun names h names' h' heq => ?_
    obtain ⟨⟨_, a⟩, hleaf, rfl⟩ := List.mem_map.1 h
    obtain ⟨⟨_, a'⟩, hleaf', rfl⟩ := List.mem_map.1 h'
    obtain ⟨path, part, ending, hreached, hmem, rfl⟩ := mem_leaves.1 hleaf
    obtain ⟨path', part', ending', hreached', hmem', rfl⟩ := mem_leaves.1 hleaf'
    exact joinDots_injective_of_reached hown hnames hreached hmem hreached' hmem' heq
  · rw [List.mem_map]
    constructor
    · rintro ⟨⟨_, a⟩, hleaf, ⟨⟩⟩
      obtain ⟨names, part, ending, hreached, hmem, rfl⟩ := mem_leaves.1 hleaf
      exact ⟨names, part, ending, hreached, hmem, rfl⟩
    · rintro ⟨names, part, ending, hreached, hmem, rfl⟩
      exact ⟨(names ++ ending, a), mem_leaves.2 ⟨names, part, ending, hreached, hmem, rfl⟩, rfl⟩
  · intro names part ending a names' part' ending' a' h hmem h' hmem' heq
    exact h.unique hdistinct hmem h' hmem'
      (joinDots_injective_of_reached hown hnames h hmem h' hmem' heq)

-- A point in a name makes it look like two names.
example :
    let number (n : Int) := Value.integer (.word true .little) 0 n
    let node := ScopeTree.root .eventFields
    (Value.struct .byte [] 0 node
      [("a.b", number 1), ("a", .struct .byte [] 0 node [("b", number 2)])]).sectionAttributes =
        [("a.b", .integer 1), ("a.b", .integer 2)] := by
  decide +kernel

theorem IsContent.distinct (h : v.IsContent) : v.Distinct := by
  obtain ⟨type, scope, s, s', htype, hrun⟩ := h
  exact (Declaration.placed_decodeRoot htype hrun).1

theorem IsContent.exists_fields (h : v.IsContent) : ∃ fields, v.fields? = some fields := by
  obtain ⟨type, scope, s, s', -, hrun⟩ := h
  have hplace : (Place.content scope).decode type.declaration s = .ok v s' := hrun
  obtain ⟨d, -, htype, rfl, -⟩ := Place.decode_eq_ok hplace
  have hdeclaration := d.declaration_eq.trans htype
  cases hvalue : d.value with
  | struct => exact ⟨_, rfl⟩
  | _ =>
    rw [hvalue] at hdeclaration
    cases hdeclaration

end Value

end CommonTrace
