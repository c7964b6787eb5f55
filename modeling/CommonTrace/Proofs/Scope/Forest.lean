import CommonTrace.Proofs.Scope.Paths

/-!
# The forest of scopes

Rewinding drops nodes and their numbers are given again, so a link that was left behind would lead
to a node that has nothing to do with it. None is left: as long as children are added only to nodes
that exist, every node but the dynamic scopes has a parent with a smaller number, and a link leads
to a node that has the name and the parent that the link tells. So the way up from a node comes to
its end at a dynamic scope, although nothing but the parents tells where it ends, and the path of a
child continues that of its parent.
-/
namespace CommonTrace.ScopeTree

variable {t : ScopeTree} {op : Operation} {i p c : NodeId} {name : String}
  {way way' : List NodeId}

/-- Whether an operation adds a child to no node but one that exists. Decoding adds its first child
once it is aligned. -/
def Operation.Grounded (t : ScopeTree) : Operation → Prop
  | .addChild parent _ => t.Has parent
  | .decode type parent _ cursor => (cursor.align type.alignment).isOk → t.Has parent
  | .bind _ _ | .clear _ | .decodeRoot _ _ _ => True

/-- An operation keeps a forest if and only if it adds no child to a node that does not exist. -/
theorem Operation.linked_apply_iff (ht : t.Linked) : (op.apply t).Linked ↔ op.Grounded t := by
  cases op with
  | addChild parent name =>
    have hparent : (t.addChild parent name).parent? t.next = some parent := by
      rw [parent?_addChild, if_pos rfl]
    exact ⟨fun h => h.parent_lt hparent, fun hp => ht.addChild hp⟩
  | bind node value => exact iff_of_true (ht.bind node value) trivial
  | clear node => exact iff_of_true (ht.clear node) trivial
  | decode type parent name cursor =>
    refine of_align (C := fun u => u.Linked ↔ Grounded t (.decode type parent name cursor))
      (fun e halign => ?_) fun aligned halign => ?_
    · rw [Grounded, halign]
      exact iff_of_true ht nofun
    · rw [Grounded, halign]
      have hedits := type.edits_decodeAt t.next ⟨aligned, t.addChild parent name⟩
      constructor
      · -- the child that was added names its parent, whatever was decoded below it
        intro h _
        have hchild : (t.addChild parent name).parent? t.next = some parent := by
          rw [parent?_addChild, if_pos rfl]
        exact h.parent_lt ((hedits.parent? has_next_addChild).trans hchild)
      · intro hp
        exact hedits.linked (ht.addChild (hp rfl)) fun i hi => hi ▸ has_next_addChild
  | decodeRoot type scope cursor =>
    have hedits := type.edits_decodeRoot scope ⟨cursor, t⟩
    exact iff_of_true (hedits.linked ht fun i hi => hi ▸ ht.has_root scope) trivial

/-- The trees that grow from the empty one: by operations that add children to nodes that exist,
by registering the constants of a trace, and by rewinding to a checkpoint of a tree that has grown,
also to one that has been rewound past. -/
inductive Grown : ScopeTree → Prop
  | empty : Grown .empty
  | apply {t : ScopeTree} {op : Operation} (h : Grown t) (hop : op.Grounded t) :
      Grown (op.apply t)
  | bindEnvironment {t : ScopeTree} (h : Grown t) (metadata : Metadata) :
      Grown (metadata.bindEnvironment t)
  | rewind {t u : ScopeTree} (h : Grown t) (hu : Grown u) : Grown (t.rewind u.checkpoint)

theorem Grown.linked (h : t.Grown) : t.Linked := by
  induction h with
  | empty => exact .empty
  | apply _ hop ih => exact (Operation.linked_apply_iff ih).2 hop
  | bindEnvironment _ metadata ih => exact metadata.linked_bindEnvironment ih
  | rewind _ _ ih ihu => exact ih.rewind ihu.count_le

/-- The nodes on the way up from a node: the node, its parent, the parent of that and so on, up to
one that has none. -/
inductive WayUp (t : ScopeTree) : NodeId → List NodeId → Prop
  | top {i : NodeId} (h : t.parent? i = none) : WayUp t i [i]
  | up {i p : NodeId} {way : List NodeId} (hp : t.parent? i = some p) (h : WayUp t p way) :
      WayUp t i (i :: way)

theorem Linked.exists_wayUp (ht : t.Linked) (i : NodeId) : ∃ way, t.WayUp i way := by
  cases hp : t.parent? i with
  | none => exact ⟨[i], .top hp⟩
  | some p =>
    have hlt := ht.parent_lt hp
    obtain ⟨way, hway⟩ := ht.exists_wayUp p
    exact ⟨i :: way, .up hp hway⟩
termination_by i.index

namespace WayUp

theorem unique (h : t.WayUp i way) (h' : t.WayUp i way') : way = way' := by
  induction h generalizing way' with
  | top hnone =>
    cases h' with
    | top => rfl
    | up hp => cases hnone.symm.trans hp
  | up hp _ ih =>
    cases h' with
    | top hnone => cases hnone.symm.trans hp
    | up hp' h' =>
      cases hp.symm.trans hp'
      rw [ih h']

theorem index_le (ht : t.Linked) (h : t.WayUp i way) : ∀ j ∈ way, j.index ≤ i.index := by
  induction h with
  | top => simp
  | up hp _ ih =>
    have hlt := ht.parent_lt hp
    intro j hj
    rcases List.mem_cons.1 hj with rfl | hj
    · exact Nat.le_refl _
    · exact Nat.le_trans (ih j hj) (Nat.le_of_lt hlt)

/-- The numbers get smaller, so no node is met again. -/
theorem pairwise (ht : t.Linked) (h : t.WayUp i way) :
    way.Pairwise fun j above => above.index < j.index := by
  induction h with
  | top => exact List.pairwise_singleton _ _
  | up hp h ih =>
    refine List.pairwise_cons.2 ⟨fun j hj => ?_, ih⟩
    exact Nat.lt_of_le_of_lt (h.index_le ht j hj) (ht.parent_lt hp)

/-- The way up from a node that exists ends at a dynamic scope. -/
theorem getLast?_eq (ht : t.Linked) (h : t.WayUp i way) (hi : t.Has i) :
    ∃ scope, way.getLast? = some (root scope) := by
  induction h with
  | top hnone =>
    rcases ht.root_or_parent hi with ⟨scope, rfl⟩ | ⟨p, hp, -⟩
    · exact ⟨scope, rfl⟩
    · cases hnone.symm.trans hp
  | up hp h ih =>
    obtain ⟨scope, hlast⟩ := ih (Nat.lt_trans (ht.parent_lt hp) hi)
    refine ⟨scope, ?_⟩
    rw [List.getLast?_cons, hlast, Option.getD_some]

/-- The names that make the path of a node are those on the way up, the last one first. -/
theorem names_eq (ht : t.Linked) (h : t.WayUp i way) :
    t.names i = (way.filterMap t.name?).reverse := by
  induction h with
  | @top i hnone =>
    rw [names, ancestor?, hnone, Option.bind_none, List.filterMap_cons, name?]
    cases t.node? i <;> rfl
  | @up i p way hp h ih =>
    rw [names, ht.ancestor?_eq_some hp, List.filterMap_cons, name?]
    cases hnode : t.node? i with
    | none =>
      rw [ScopeTree.parent?, hnode] at hp
      cases hp
    | some n =>
      dsimp only [Option.map_some]
      rw [ih, List.reverse_cons]

/-- A relative path stands for the value that it leads to from the first node on the way up from
which it leads to one. -/
theorem relative?_eq (ht : t.Linked) (h : t.WayUp i way) (names : List String) :
    t.relative? names i = way.findSome? (t.valueBelow? · names) := by
  induction h with
  | @top i hnone =>
    rw [relative?, ancestor?, hnone, Option.bind_none, List.findSome?_cons]
    cases t.valueBelow? i names <;> rfl
  | @up i p way hp h ih =>
    rw [relative?, ht.ancestor?_eq_some hp, List.findSome?_cons]
    cases t.valueBelow? i names with
    | none => exact ih
    | some value => rfl

end WayUp

theorem names_ne_nil (hi : t.Has i) : t.names i ≠ [] := by
  obtain ⟨n, hn⟩ := exists_node hi
  rw [names, hn]
  dsimp only
  split <;> simp

theorem Linked.names_child (ht : t.Linked) (hc : t.child? p name = some c) :
    t.names c = t.names p ++ [name] := by
  obtain ⟨hparent, hname⟩ := ht.child p name c hc
  obtain ⟨way, hway⟩ := ht.exists_wayUp p
  rw [(WayUp.up hparent hway).names_eq ht, List.filterMap_cons_some hname, List.reverse_cons,
    hway.names_eq ht]

/-- The path of a child continues the path of its parent. -/
theorem Linked.path_child (ht : t.Linked) (hc : t.child? p name = some c) :
    t.path c = t.path p ++ "." ++ name := by
  rw [path, path, ht.names_child hc, Text.joinDots, Text.joinDots,
    String.intercalate_append_of_ne_nil (names_ne_nil (has_of_child? hc)) (List.cons_ne_nil _ _),
    String.intercalate_singleton]

/-- In a tree that has grown, the dynamic scopes are the first nodes and have no parent. The parent
of any other node has a smaller number than the node. A link leads to a node that exists, whose
parent and name are those of the link and whose path is that of the parent followed by the name. No
binding is later than the last one. The way up from a node comes to its end, at a dynamic scope if
the node exists, and meets no node twice; the path of the node is told by the names on it, and a
path that is relative to the node stands for the first value found along it. -/
theorem forest_of_grown (ht : t.Grown) :
    DynamicScope.all.map root = (List.range 7).map NodeId.mk ∧
    (∀ scope, t.name? (root scope) = some scope.path ∧ t.parent? (root scope) = none) ∧
    (∀ i, t.Has i → (∃ scope, i = root scope) ∨ ∃ p, t.parent? i = some p ∧ p.index < i.index) ∧
    (∀ p name c, t.child? p name = some c →
      t.Has c ∧ t.parent? c = some p ∧ t.name? c = some name ∧
        t.path c = t.path p ++ "." ++ name) ∧
    (∀ i stamp, t.boundAt? i = some stamp → stamp ≤ t.clock) ∧
    ∀ i, ∃ way, t.WayUp i way ∧ (way.Pairwise fun j above => above.index < j.index) ∧
      (t.Has i → ∃ scope, way.getLast? = some (root scope)) ∧
      t.path i = Text.joinDots (way.filterMap t.name?).reverse ∧
      ∀ first rest, first ∉ DynamicScope.reserved →
        t.lookupTokens? i (first :: rest) = way.findSome? (t.valueBelow? · (first :: rest)) := by
  have hlinked := ht.linked
  refine ⟨rfl, hlinked.root, fun i hi => hlinked.root_or_parent hi, fun p name c hc => ?_,
    hlinked.bound, fun i => ?_⟩
  · obtain ⟨hparent, hname⟩ := hlinked.child p name c hc
    exact ⟨hlinked.has_child hc, hparent, hname, hlinked.path_child hc⟩
  · obtain ⟨way, hway⟩ := hlinked.exists_wayUp i
    refine ⟨way, hway, hway.pairwise hlinked, hway.getLast?_eq hlinked, ?_,
      fun first rest hfirst => ?_⟩
    · rw [path, hway.names_eq hlinked]
    · rw [lookupTokens?, if_neg hfirst, hway.relative?_eq hlinked]

/-- A tree in which fields of an event were decoded and dropped, and then decoded again below
another field, until the data ended. -/
def regrown : ScopeTree :=
  let base := Lexical.countTrace.bindEnvironment .empty
  let decoded :=
    (Operation.decodeRoot Lexical.countType .eventFields (.ofBytes Lexical.countBytes)).apply base
  (Operation.decode Lexical.countType (root .eventFields) "again" (.ofBytes ⟨#[0xA1]⟩)).apply
    (decoded.rewind base.checkpoint)

/-- Node 12, which was the field `event.fields.body.count`, is an element of a sequence when its
number is given again. From there `count` is the one of the field `again`, since the closer one is
not decoded. -/
theorem forest_of_grown_regrown :
    regrown.Grown ∧ regrown.child? ⟨11⟩ "0" = some ⟨12⟩ ∧
      regrown.path ⟨12⟩ = regrown.path ⟨11⟩ ++ "." ++ "0" ∧
      regrown.path ⟨11⟩ = "event.fields.again.body.before" ∧
      regrown.WayUp ⟨12⟩ [⟨12⟩, ⟨11⟩, ⟨10⟩, ⟨8⟩, ⟨6⟩] ∧
      regrown.lookupTokens? ⟨12⟩ ["count"] = regrown.valueBelow? ⟨8⟩ ["count"] ∧
      (regrown.valueBelow? ⟨8⟩ ["count"]).isSome := by
  have hgrown : regrown.Grown := by
    let base := Lexical.countTrace.bindEnvironment .empty
    let first := Operation.decodeRoot Lexical.countType .eventFields (.ofBytes Lexical.countBytes)
    let again := Operation.decode Lexical.countType (root .eventFields) "again" (.ofBytes ⟨#[0xA1]⟩)
    have hbase : base.Grown := .bindEnvironment .empty _
    have hdecoded : (first.apply base).Grown := hbase.apply trivial
    have hrewound : ((first.apply base).rewind base.checkpoint).Grown := hdecoded.rewind hbase
    have hagain : (again.apply ((first.apply base).rewind base.checkpoint)).Grown :=
      hrewound.apply fun _ => hrewound.linked.has_root .eventFields
    exact hagain
  obtain ⟨-, -, -, hlink, -, hways⟩ := forest_of_grown hgrown
  have hparents : regrown.parent? ⟨12⟩ = some ⟨11⟩ ∧ regrown.parent? ⟨11⟩ = some ⟨10⟩ ∧
      regrown.parent? ⟨10⟩ = some ⟨8⟩ ∧ regrown.parent? ⟨8⟩ = some ⟨6⟩ ∧
      regrown.parent? ⟨6⟩ = none := by
    decide +kernel
  have hchild : regrown.child? ⟨11⟩ "0" = some ⟨12⟩ := by decide +kernel
  have hcloser : (regrown.valueBelow? ⟨12⟩ ["count"]).isNone ∧
      (regrown.valueBelow? ⟨11⟩ ["count"]).isNone ∧
      (regrown.valueBelow? ⟨10⟩ ["count"]).isNone ∧
      (regrown.valueBelow? ⟨8⟩ ["count"]).isSome := by
    decide +kernel
  obtain ⟨h12, h11, h10, h8, h6⟩ := hparents
  have hway : regrown.WayUp ⟨12⟩ [⟨12⟩, ⟨11⟩, ⟨10⟩, ⟨8⟩, ⟨6⟩] :=
    .up h12 (.up h11 (.up h10 (.up h8 (.top h6))))
  obtain ⟨way, hway', -, -, -, hlookup⟩ := hways ⟨12⟩
  cases hway.unique hway'
  obtain ⟨hnone, hnone', hnone'', hsome⟩ := hcloser
  refine ⟨hgrown, hchild, (hlink _ _ _ hchild).2.2.2, by decide +kernel, hway, ?_, hsome⟩
  obtain ⟨value, hvalue⟩ := Option.isSome_iff_exists.1 hsome
  rw [hlookup "count" [] (by decide)]
  simp only [List.findSome?_cons, Option.isNone_iff_eq_none.1 hnone,
    Option.isNone_iff_eq_none.1 hnone', Option.isNone_iff_eq_none.1 hnone'', hvalue]

end CommonTrace.ScopeTree
