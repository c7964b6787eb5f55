import CommonTrace.Proofs.Lexical.Decoder
import CommonTrace.Proofs.Scope.Edits
import Mathlib.Logic.Relation

/-!
# Trees of scopes as partial values

A node of a tree mirrors what is known of a value if the same names lead to the same
complete values below it. The tree in which a value is being decoded mirrors its
surroundings: the nodes around it hold the members decoded before it and lead to its own
node. Adding a child, binding a node and clearing a root keep this so, because links form a
forest: what hangs below one child of a node does not hang below another.
-/
namespace CommonTrace

mutual

/-- A value, apart from where its parts are registered. -/
def Value.datum : Value → Datum
  | .integer type offset value => .integer type offset value
  | .float type offset value => .float type offset value
  | .enumeration type offset value => .enumeration type offset value
  | .string encoding offset text => .string encoding offset text
  | .struct minAlignment types offset _ fields =>
    .struct minAlignment types offset (Value.fieldData fields)
  | .array length element offset _ elements =>
    .array length element offset (Value.elementData elements)
  | .sequence length element offset _ elements =>
    .sequence length element offset (Value.elementData elements)
  | .variant tag options offset _ label current =>
    .variant tag options offset label current.datum

/-- Elements, apart from where their parts are registered. -/
def Value.elementData : List Value → List Datum
  | [] => []
  | value :: rest => value.datum :: Value.elementData rest

/-- Fields, apart from where their parts are registered. -/
def Value.fieldData : List (String × Value) → List (String × Datum)
  | [] => []
  | (name, value) :: rest => (name, value.datum) :: Value.fieldData rest

end

theorem Value.elementData_eq_map (values : List Value) :
    Value.elementData values = values.map Value.datum := by
  induction values with
  | nil => rfl
  | cons value rest ih => rw [Value.elementData, ih, List.map_cons]

theorem Value.elementData_append (values : List Value) (value : Value) :
    Value.elementData (values ++ [value]) = Value.elementData values ++ [value.datum] := by
  simp only [Value.elementData_eq_map, List.map_append, List.map_cons, List.map_nil]

theorem Datum.indexed_append (elements : List Datum) (element : Datum) :
    indexed (elements ++ [element]) =
      indexed elements ++ [(toString elements.length, element)] := by
  simp [indexed, List.mapIdx_append]

namespace ScopeTree

variable {t t' : ScopeTree} {i p q c node start : NodeId} {name : String} {own : NodeId → Prop}

/-- Whether a node is another one or hangs below it. -/
def Under (t : ScopeTree) : NodeId → NodeId → Prop :=
  Relation.ReflTransGen fun c p => t.parent? c = some p

theorem Under.le (h : t.Linked) (hi : t.Under i p) : p.index ≤ i.index := by
  induction hi with
  | refl => exact Nat.le_refl _
  | tail _ hp ih => exact Nat.le_trans (Nat.le_of_lt (h.parent_lt hp)) ih

/-- Nothing hangs below two nodes with the same parent, nor below two roots. -/
theorem Under.disjoint (h : t.Linked) (hp : t.parent? p = t.parent? q) (hne : p ≠ q)
    (hip : t.Under i p) : ¬t.Under i q := by
  have hapart {a b : NodeId} (hab : t.parent? a = t.parent? b) (hne : a ≠ b) : ¬t.Under a b := by
    intro hunder
    rcases Relation.ReflTransGen.cases_head hunder with heq | ⟨c, hc, hcb⟩
    · exact hne heq
    · have hlt := h.parent_lt (hab ▸ hc : t.parent? b = some c)
      have hle := Under.le h hcb
      omega
  intro hiq
  have hunique : Relator.RightUnique fun c p => t.parent? c = some p := by
    intro a b c hb hc
    exact Option.some.inj (hb.symm.trans hc)
  rcases Relation.ReflTransGen.total_of_right_unique hunique hip hiq with hpq | hqp
  · exact hapart hp hne hpq
  · exact hapart hp.symm hne.symm hqp

/-- Changes to a node are not seen from nodes that it does not hang below. -/
theorem Edits.valueBelow? (ht : t.Linked) (he : Edits (· = node) t t') (hstart : t.Has start)
    (hnode : ¬t.Under node start) (names : List String) :
    t'.valueBelow? start names = t.valueBelow? start names := by
  induction names generalizing start with
  | nil =>
    have hne : start ≠ node := fun heq => hnode (heq ▸ .refl)
    exact (he.frame hstart hne).1
  | cons name names ih =>
    have hne : start ≠ node := fun heq => hnode (heq ▸ .refl)
    have hchild := (he.frame hstart hne).2.2 name
    rw [valueBelow?_cons, valueBelow?_cons, hchild]
    cases hc : t.child? start name with
    | none => rfl
    | some c =>
      refine ih (ht.has_child hc) fun hunder => hnode ?_
      exact hunder.tail (ht.child start name c hc).1

/-- Changes to a node are not seen from its children, which come after it. -/
theorem Edits.valueBelow?_child (ht : t.Linked) (he : Edits (· = node) t t')
    (hc : t.child? node name = some c) (names : List String) :
    t'.valueBelow? c names = t.valueBelow? c names := by
  refine he.valueBelow? ht (ht.has_child hc) (fun hunder => ?_) names
  have hle := hunder.le ht
  have hlt := ht.lt_child hc
  omega

end ScopeTree

namespace Lexical

theorem last?_append {α : Type} (name n : String) (things : List (String × α)) (a : α) :
    last? name (things ++ [(n, a)]) = if name = n then some a else last? name things := by
  unfold last?
  rw [List.reverse_append, List.reverse_singleton, List.singleton_append, List.lookup_cons]
  split <;> simp_all

namespace Content

@[simp] theorem below?_nil (content : Content) : content.below? [] = content.datum? := rfl

@[simp] theorem below?_cons (content : Content) (name : String) (names : List String) :
    content.below? (name :: names) = (content.member? name).bind (·.below? names) := rfl

/-- A complete value has the members it was made of. -/
theorem member?_complete {datum : Datum} (name : String) :
    (complete datum).member? name = (having datum.members).member? name := rfl

theorem having_append (members : List (String × Datum)) (name : String) (datum : Datum) :
    having (members ++ [(name, datum)]) = holding members name (complete datum) := by
  rw [having, decoded, List.map_append]
  rfl

theorem member?_holding (members : List (String × Datum)) (name n : String) (inner : Content) :
    (holding members name inner).member? n =
      if n = name then some inner else (having members).member? n :=
  last?_append n name _ inner

end Content

/-- The same names lead to the same complete values below a node and in what is known of a
value. -/
def Mirrors (t : ScopeTree) (node : NodeId) (content : Content) : Prop :=
  ∀ names, (t.valueBelow? node names).map Value.datum = content.below? names

/-- The tree in which a value is being decoded under the last node given mirrors what is
around it: the nodes around its own are the others, from the closest on. -/
inductive Encloses (t : ScopeTree) : Surroundings → List NodeId → NodeId → Prop
  | root {scope : DynamicScope} {others : DynamicScope → Content}
      (hothers : ∀ other, other ≠ scope → Mirrors t (ScopeTree.root other) (others other)) :
      Encloses t (.root scope others) [] (ScopeTree.root scope)
  | within {outer : Surroundings} {nodes : List NodeId} {parent node : NodeId}
      {members : List (String × Datum)} {name : String} (houter : Encloses t outer nodes parent)
      (hchild : t.child? parent name = some node)
      (hrest : ∀ names, names.head? ≠ some name →
        (t.valueBelow? parent names).map Value.datum = (Content.having members).below? names) :
      Encloses t (outer.within members name) (parent :: nodes) node

/-- A linked tree that mirrors what is known of a value under its node and what is around
it. -/
structure Shows (around : Surroundings) (nodes : List NodeId) (node : NodeId)
    (content : Content) (t : ScopeTree) : Prop where
  linked : t.Linked
  encloses : Encloses t around nodes node
  mirrors : Mirrors t node content

variable {t t' : ScopeTree} {around outer : Surroundings} {nodes : List NodeId}
  {parent node own : NodeId} {members : List (String × Datum)} {name : String}
  {inner content : Content} {value : Value} {datum : Datum}

/-- Nothing is known of a value whose node has neither children nor a value. -/
theorem Mirrors.vacant (h : t.Vacant node) : Mirrors t node (.having []) := by
  intro names
  cases names with
  | nil =>
    rw [ScopeTree.valueBelow?_nil, h.1]
    rfl
  | cons name names =>
    rw [ScopeTree.valueBelow?_cons, h.2]
    rfl

namespace Encloses

theorem has (ht : t.Linked) (h : Encloses t around nodes node) : t.Has node := by
  cases h with
  | root => exact ht.has_root _
  | within _ hchild _ => exact ht.has_child hchild

/-- What is known of a value is known of the value around it. -/
theorem mirrors (h : Encloses t (outer.within members name) (parent :: nodes) node)
    (hinner : Mirrors t node inner) : Mirrors t parent (.holding members name inner) := by
  cases h with
  | within _ hchild hrest =>
    intro names
    cases names with
    | nil => exact hrest [] (by simp)
    | cons n names =>
      rw [Content.below?_cons, Content.member?_holding]
      split
      next heq =>
        rw [heq, ScopeTree.valueBelow?_cons, hchild]
        exact hinner names
      next hne =>
        exact hrest (n :: names) (by simpa using hne)

/-- A relative path leads to the same in the tree as in the surroundings. -/
theorem relative? (ht : t.Linked) (h : Encloses t around nodes node) (hinner : Mirrors t node inner)
    (names : List String) :
    (t.relative? names node).map Value.datum = around.nearest? names inner := by
  induction around generalizing nodes node inner with
  | root scope others =>
    cases h with
    | root hothers =>
      rw [ScopeTree.relative?, ScopeTree.ancestor?, (ht.root scope).2, Surroundings.nearest?,
        ← hinner names]
      cases t.valueBelow? (ScopeTree.root scope) names <;> rfl
  | within outer members name ih =>
    cases h with
    | @within _ nodes parent _ _ _ houter hchild hrest =>
      have hmirrors := (within houter hchild hrest).mirrors hinner
      have hparent := (ht.child parent name node hchild).1
      have hlt := ht.parent_lt hparent
      rw [ScopeTree.relative?, ScopeTree.ancestor?, hparent, Surroundings.nearest?, ← hinner names]
      cases t.valueBelow? node names with
      | some value => rfl
      | none =>
        -- the search goes on from the parent, which mirrors what is around
        simp only [Option.bind_some, dif_pos hlt, Option.map_none, Option.none_or]
        exact ih houter hmirrors

/-- What is known of the dynamic scopes is known of their roots. -/
theorem roots (h : Encloses t around nodes node) (hinner : Mirrors t node inner)
    (scope : DynamicScope) : Mirrors t (ScopeTree.root scope) (around.content inner scope) := by
  induction around generalizing nodes node inner with
  | root own others =>
    cases h with
    | root hothers =>
      rw [Surroundings.content]
      split
      next heq => exact heq ▸ hinner
      next hne => exact hothers scope hne
  | within outer members name ih =>
    cases h with
    | within houter hchild hrest => exact ih houter ((within houter hchild hrest).mirrors hinner)

/-- Changes to a node that is the value's or hangs below it change nothing around it. -/
theorem edits (ht : t.Linked) (he : ScopeTree.Edits (· = own) t t')
    (h : Encloses t around nodes node) (hunder : t.Under own node) :
    Encloses t' around nodes node := by
  induction h with
  | @root scope others hothers =>
    refine .root fun other hother names => ?_
    have hne : ScopeTree.root scope ≠ ScopeTree.root other :=
      fun heq => hother (ScopeTree.root_injective heq).symm
    have hroots := (ht.root scope).2.trans (ht.root other).2.symm
    rw [he.valueBelow? ht (ht.has_root other) (hunder.disjoint ht hroots hne)]
    exact hothers other hother names
  | @within outer nodes parent node members name houter hchild hrest ih =>
    have hparent := (ht.child parent name node hchild).1
    have hne : parent ≠ own := by
      rintro rfl
      have := hunder.le ht
      have := ht.lt_child hchild
      omega
    obtain ⟨hvalue, -, hchildren⟩ := he.frame (houter.has ht) hne
    refine .within (ih (hunder.tail hparent)) (by rw [hchildren, hchild]) fun names hnames => ?_
    rw [← hrest names hnames]
    cases names with
    | nil => rw [ScopeTree.valueBelow?_nil, ScopeTree.valueBelow?_nil, hvalue]
    | cons n names =>
      rw [ScopeTree.valueBelow?_cons, ScopeTree.valueBelow?_cons, hchildren]
      cases hc : t.child? parent n with
      | none => rfl
      | some c =>
        obtain ⟨hcparent, hcname⟩ := ht.child parent n c hc
        -- a child of another name is another child, so the changes are not below it
        have hcne : node ≠ c := by
          rintro rfl
          have hname := (ht.child parent name node hchild).2
          rw [hcname] at hname
          exact hnames (by simpa using hname)
        have hapart := hunder.disjoint ht (hparent.trans hcparent.symm) hcne
        rw [Option.bind_some, Option.bind_some, he.valueBelow? ht (ht.has_child hc) hapart]

end Encloses

namespace Shows

/-- Paths lead to the same in the tree as in the surroundings. -/
theorem lookupTokens? (h : Shows around nodes node content t) (names : List String) :
    (t.lookupTokens? node names).map Value.datum = around.find? content names := by
  cases names with
  | nil => rfl
  | cons first rest =>
    rw [ScopeTree.lookupTokens?, Surroundings.find?]
    split
    · cases DynamicScope.split? (first :: rest) with
      | none => rfl
      | some found => exact h.encloses.roots h.mirrors found.1 found.2
    · exact h.encloses.relative? h.linked h.mirrors (first :: rest)

/-- A root that was cleared holds nothing, whatever it held before. -/
theorem root {scope : DynamicScope} {others : DynamicScope → Content} (ht : t.Linked)
    (hothers : ∀ other, other ≠ scope → Mirrors t (ScopeTree.root other) (others other)) :
    Shows (.root scope others) [] (ScopeTree.root scope) (.having [])
      (t.clear (ScopeTree.root scope)) where
  linked := ht.clear _
  encloses := (Encloses.root hothers).edits ht (.clear .refl (.inl (by rfl))) .refl
  mirrors := .vacant ⟨by rw [ScopeTree.value?_clear, if_pos rfl],
    fun name => by rw [ScopeTree.child?_clear, if_pos rfl]⟩

/-- A node that was added is that of a member of which nothing is known yet. -/
theorem enter (h : Shows around nodes parent (.having members) t) (name : String) :
    Shows (around.within members name) (parent :: nodes) t.next (.having [])
      (t.addChild parent name) where
  linked := h.linked.addChild (h.encloses.has h.linked)
  encloses := by
    have hparent := h.encloses.has h.linked
    have hedits : ScopeTree.Edits (· = parent) t (t.addChild parent name) :=
      .addChild .refl (.inl (by rfl)) name
    refine .within (h.encloses.edits h.linked hedits .refl) ?_ fun names hnames => ?_
    · rw [ScopeTree.child?_addChild, if_pos ⟨rfl, rfl, Nat.le_of_lt hparent⟩]
    · rw [← h.mirrors names]
      cases names with
      | nil => rw [ScopeTree.valueBelow?_nil, ScopeTree.value?_addChild, ScopeTree.valueBelow?_nil]
      | cons n names =>
        have hn : n ≠ name := by simpa using hnames
        rw [ScopeTree.valueBelow?_cons, ScopeTree.valueBelow?_cons, ScopeTree.child?_addChild,
          if_neg fun hc => hn hc.2.1]
        cases hc : t.child? parent n with
        | none => rfl
        | some c =>
          rw [Option.bind_some, Option.bind_some, hedits.valueBelow?_child h.linked hc]
  mirrors := by
    have hne : t.next ≠ parent := (ScopeTree.ne_next (h.encloses.has h.linked)).symm
    have hnone : ¬t.Has t.next := ScopeTree.not_has_next
    refine .vacant ⟨by rw [ScopeTree.value?_addChild, ScopeTree.value?_eq_none hnone], fun n => ?_⟩
    rw [ScopeTree.child?_addChild, if_neg fun hc => hne hc.1, ScopeTree.child?_eq_none hnone]

/-- A node is bound to the value that is made of the members it has. -/
theorem complete (h : Shows around nodes node (.having value.datum.members) t) :
    Shows around nodes node (.complete value.datum) (t.bind node value) where
  linked := h.linked.bind node value
  encloses := h.encloses.edits h.linked (.bind .refl (.inl (by rfl)) value) .refl
  mirrors names := by
    have hnode := h.encloses.has h.linked
    have hedits : ScopeTree.Edits (· = node) t (t.bind node value) :=
      .bind .refl (.inl (by rfl)) value
    cases names with
    | nil =>
      rw [ScopeTree.valueBelow?_nil, ScopeTree.value?_bind, if_pos ⟨rfl, hnode⟩]
      rfl
    | cons n names =>
      have hmirrors := h.mirrors (n :: names)
      rw [ScopeTree.valueBelow?_cons] at hmirrors ⊢
      rw [ScopeTree.child?_bind, Content.below?_cons, Content.member?_complete,
        ← Content.below?_cons, ← hmirrors]
      cases hc : t.child? node n with
      | none => rfl
      | some c =>
        rw [Option.bind_some, Option.bind_some, hedits.valueBelow?_child h.linked hc]

/-- A member that is complete is one more of those known of the value around it. -/
theorem leave (h : Shows (outer.within members name) (parent :: nodes) node (.complete datum) t) :
    Shows outer nodes parent (.having (members ++ [(name, datum)])) t where
  linked := h.linked
  encloses := by
    cases h.encloses with
    | within houter _ _ => exact houter
  mirrors := by
    rw [Content.having_append]
    exact h.encloses.mirrors h.mirrors

end Shows

end Lexical

end CommonTrace
