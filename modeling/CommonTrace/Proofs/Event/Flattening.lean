import CommonTrace.Proofs.Event.Texts

/-!
# Scalars reached from a value

Some values are shown by themselves: numbers, texts, enumerations, and the arrays that are texts. A
value is flattened into all that its parts are shown as, where a part is reached from member to
member without going into a text. In a value without repetitions of names, what a part is shown as
is told from all else by the names on the way to it and the ending of its own.
-/
namespace CommonTrace.Value

/-- What a value is shown as by itself, with the endings of the names for it. -/
def own : Value → List (List String × AttributeValue)
  | integer _ _ value => [([], .integer value)]
  | float _ _ value => [([], .float value)]
  | string _ _ text => [([], .string text)]
  | enumeration type _ value =>
    match type.label? value with
    | none => [([], .integer value)]
    | some label => [([], .integer value), (["label"], .string label)]
  | array _ element _ _ elements =>
    if isTextElement element then [([], .string (unquotedText elements))] else []
  | sequence _ element _ _ elements =>
    if isTextElement element then [([], .string (unquotedText elements))] else []
  | struct _ _ _ _ _ => []
  | variant _ _ _ _ _ _ => []

/-- The parts of a value that are reached without going into a text, under the names that lead to
them from member to member. -/
inductive Reached : Value → List String → Value → Prop
  | self (v : Value) : Reached v [] v
  | member {v m part : Value} {name : String} {names : List String} (htext : v.isText = false)
      (hm : (name, m) ∈ v.members) (h : Reached m names part) : Reached v (name :: names) part

variable {v part part' : Value} {names names' ending ending' : List String}
  {a a' : AttributeValue} {fields : List (String × Value)}

/-- What holds of a value if it holds of its members holds of every value. -/
theorem induction {motive : Value → Prop}
    (h : ∀ v, (∀ member ∈ v.members, motive member.2) → motive v) (v : Value) : motive v :=
  h v fun member hmember =>
    have := sizeOf_lt_of_mem_members hmember
    induction h member.2
termination_by sizeOf v

/-- The members that a value is flattened into. -/
def entered (v : Value) : List (String × Value) := if v.isText then [] else v.members

theorem mem_entered {member : String × Value} :
    member ∈ v.entered ↔ v.isText = false ∧ member ∈ v.members := by
  unfold entered
  split
  next h => simp [h]
  next h => simp [h]

/-- What is shown by itself is not gone into. -/
theorem own_eq_nil_or_entered_eq_nil (v : Value) : v.own = [] ∨ v.entered = [] := by
  cases v with
  | struct => exact .inl rfl
  | variant => exact .inl rfl
  | array length element =>
    by_cases h : isTextElement element
    · exact .inr (if_pos h)
    · exact .inl (if_neg h)
  | sequence length element =>
    by_cases h : isTextElement element
    · exact .inr (if_pos h)
    · exact .inl (if_neg h)
  | _ => exact .inr rfl

/-- The endings of what a value is shown as by itself are different. -/
theorem nodup_own (v : Value) : (v.own.map Prod.fst).Nodup := by
  cases v with
  | enumeration type offset value =>
    rw [own]
    split
    · simp
    · simp
  | array length element =>
    rw [own]
    split
    · simp
    · simp
  | sequence length element =>
    rw [own]
    split
    · simp
    · simp
  | _ => simp [own]

theorem fieldLeaves_eq (fields : List (String × Value)) :
    fieldLeaves fields = fields.flatMap fun (name, m) =>
      m.leaves.map fun (names, a) => (name :: names, a) := by
  induction fields with
  | nil => rw [fieldLeaves, List.flatMap_nil]
  | cons field rest ih => rw [fieldLeaves, ih, List.flatMap_cons]

theorem elementLeaves_eq (index : Nat) (elements : List Value) :
    elementLeaves index elements =
      fieldLeaves (elements.mapIdx fun i element => (toString (index + i), element)) := by
  induction elements generalizing index with
  | nil => rw [elementLeaves, List.mapIdx_nil, fieldLeaves]
  | cons element rest ih =>
    rw [elementLeaves, ih, List.mapIdx_cons, fieldLeaves]
    simp only [Nat.add_assoc, Nat.add_comm 1, Nat.add_zero]

theorem elementLeaves_zero (elements : List Value) :
    elementLeaves 0 elements = fieldLeaves (indexed elements) := by
  rw [elementLeaves_eq]
  simp only [Nat.zero_add]
  rfl

/-- A value is flattened into what it is shown as by itself and what its members are flattened
into. -/
theorem leaves_eq (v : Value) : v.leaves = v.own ++ fieldLeaves v.entered := by
  have hnil : fieldLeaves [] = [] := by rw [fieldLeaves]
  cases v with
  | integer => rw [leaves]; rfl
  | float => rw [leaves]; rfl
  | string => rw [leaves]; rfl
  | enumeration type offset value =>
    rw [leaves, own]
    cases type.label? value <;> rfl
  | struct => rw [leaves]; rfl
  | array length element =>
    rw [leaves, own, entered, isText]
    split
    · rw [hnil, List.append_nil]
    · rw [elementLeaves_zero]
      rfl
  | sequence length element =>
    rw [leaves, own, entered, isText]
    split
    · rw [hnil, List.append_nil]
    · rw [elementLeaves_zero]
      rfl
  | variant tag options offset node label current =>
    show _ = fieldLeaves [(label, current)]
    rw [leaves, fieldLeaves, hnil, List.append_nil]

theorem mem_fieldLeaves : (names, a) ∈ fieldLeaves fields ↔
    ∃ name rest m, (name, m) ∈ fields ∧ (rest, a) ∈ m.leaves ∧ names = name :: rest := by
  rw [fieldLeaves_eq, List.mem_flatMap]
  constructor
  · rintro ⟨⟨name, m⟩, hm, hnames⟩
    obtain ⟨⟨rest, a⟩, hrest, ⟨⟩⟩ := List.mem_map.1 hnames
    exact ⟨name, rest, m, hm, hrest, rfl⟩
  · rintro ⟨name, rest, m, hm, hrest, rfl⟩
    exact ⟨(name, m), hm, List.mem_map.2 ⟨(rest, a), hrest, rfl⟩⟩

/-- A value is flattened into what the parts that are reached from it are shown as. -/
theorem mem_leaves : (names, a) ∈ v.leaves ↔ ∃ path part ending,
    v.Reached path part ∧ (ending, a) ∈ part.own ∧ names = path ++ ending := by
  induction v using induction generalizing names with
  | h v ih =>
    rw [leaves_eq, List.mem_append, mem_fieldLeaves]
    constructor
    · rintro (hown | ⟨name, rest, m, hm, hrest, rfl⟩)
      · exact ⟨[], v, names, .self v, hown, rfl⟩
      · obtain ⟨htext, hm⟩ := mem_entered.1 hm
        obtain ⟨path, part, ending, hreached, hown, rfl⟩ := (ih _ hm).1 hrest
        exact ⟨name :: path, part, ending, .member htext hm hreached, hown, rfl⟩
    · rintro ⟨path, part, ending, hreached, hown, rfl⟩
      cases hreached with
      | self => exact .inl hown
      | @member _ m _ name path htext hm hreached =>
        exact .inr ⟨name, path ++ ending, m, mem_entered.2 ⟨htext, hm⟩,
          (ih _ hm).2 ⟨path, part, ending, hreached, hown, rfl⟩, rfl⟩

theorem Distinct.member {name : String} {m : Value} (h : v.Distinct) (hm : (name, m) ∈ v.members) :
    m.Distinct :=
  fun names part hpart => h (name :: names) part (.member hm hpart)

theorem eq_of_mem_own (h : (ending, a) ∈ v.own) (h' : (ending, a') ∈ v.own) : a = a' := by
  have heq := List.inj_on_of_nodup_map v.nodup_own h h' rfl
  exact (Prod.mk.inj heq).2

/-- What is shown by itself has no part that is reached but itself. -/
theorem Reached.eq_nil (h : v.Reached names part) (hown : v.own ≠ []) : names = [] ∧ part = v := by
  cases h with
  | self => exact ⟨rfl, rfl⟩
  | member htext hm =>
    have hentered := mem_entered.2 ⟨htext, hm⟩
    rw [v.own_eq_nil_or_entered_eq_nil.resolve_left hown] at hentered
    cases hentered

/-- Names tell what the parts of a value are shown as apart. -/
theorem Reached.unique (h : v.Distinct) (hreached : v.Reached names part)
    (hown : (ending, a) ∈ part.own) (hreached' : v.Reached names' part')
    (hown' : (ending', a') ∈ part'.own) (heq : names ++ ending = names' ++ ending') :
    names = names' ∧ part = part' ∧ ending = ending' ∧ a = a' := by
  induction hreached generalizing names' with
  | self v =>
    obtain ⟨rfl, rfl⟩ := hreached'.eq_nil (List.ne_nil_of_mem hown)
    obtain rfl : ending = ending' := heq
    exact ⟨rfl, rfl, rfl, eq_of_mem_own hown hown'⟩
  | @member v m part name names htext hm hrest ih =>
    cases hreached' with
    | self =>
      have hnil := (Reached.member htext hm hrest).eq_nil (List.ne_nil_of_mem hown')
      exact absurd hnil.1 (List.cons_ne_nil _ _)
    | @member _ m' _ name' names' htext' hm' hrest' =>
      obtain ⟨rfl, hnames⟩ := List.cons.inj heq
      obtain ⟨-, rfl⟩ := Prod.mk.inj (List.inj_on_of_nodup_map (h [] v (.self v)) hm hm' rfl)
      obtain ⟨rfl, hpart⟩ := ih (h.member hm) hown hrest' hnames
      exact ⟨rfl, hpart⟩

theorem nodup_entered (h : v.Distinct) : (v.entered.map Prod.fst).Nodup := by
  unfold entered
  split
  · exact List.nodup_nil
  · exact h [] v (.self v)

theorem map_fst_fieldLeaves (fields : List (String × Value)) :
    (fieldLeaves fields).map Prod.fst =
      fields.flatMap fun (name, m) => (m.leaves.map Prod.fst).map (name :: ·) := by
  rw [fieldLeaves_eq, List.map_flatMap]
  simp only [List.map_map]
  rfl

/-- A value is flattened into scalars of different names. -/
theorem nodup_leaves (h : v.Distinct) : (v.leaves.map Prod.fst).Nodup := by
  induction v using induction with
  | h v ih =>
    rw [leaves_eq]
    rcases v.own_eq_nil_or_entered_eq_nil with hown | hentered
    · rw [hown, List.nil_append, map_fst_fieldLeaves, List.nodup_flatMap]
      constructor
      · intro field hfield
        have hm := (mem_entered.1 hfield).2
        exact (ih _ hm (h.member hm)).map List.cons_injective
      · refine (List.pairwise_map.1 (nodup_entered h)).imp fun hne names hnames hnames' => ?_
        -- the first names are those of different members
        obtain ⟨rest, -, rfl⟩ := List.mem_map.1 hnames
        obtain ⟨rest', -, heq⟩ := List.mem_map.1 hnames'
        exact hne (List.cons.inj heq).1.symm
    · rw [hentered, fieldLeaves, List.append_nil]
      exact v.nodup_own

end CommonTrace.Value
