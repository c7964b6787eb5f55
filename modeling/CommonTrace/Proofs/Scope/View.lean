import CommonTrace.Scope.Lookup

/-!
# What can be seen of a tree of scopes

A tree is seen through its nodes: their names, parents, children and values, and when
they were bound. For each operation on trees this module says what is seen afterwards.
Nothing outside it opens a tree.
-/
namespace CommonTrace.ScopeTree

/-- The name of a node. -/
def name? (t : ScopeTree) (id : NodeId) : Option String := (t.node? id).map (·.name)

/-- How many bindings had been made when a node was bound last. -/
def boundAt? (t : ScopeTree) (id : NodeId) : Option Nat := (t.node? id).map (·.boundAt)

/-- Whether a node exists. -/
def Has (t : ScopeTree) (id : NodeId) : Prop := id.index < t.nodes.size

instance (t : ScopeTree) (id : NodeId) : Decidable (t.Has id) :=
  inferInstanceAs (Decidable (_ < _))

variable {t : ScopeTree} {id i parent : NodeId} {name n : String} {value : Value}
  {point : ScopeCheckpoint}

theorem node?_eq_none (h : ¬t.Has i) : t.node? i = none := by
  unfold Has at h
  rw [node?, Array.getElem?_eq_none_iff]
  omega

theorem exists_node (h : t.Has i) : ∃ n, t.node? i = some n :=
  ⟨t.nodes[i.index], Array.getElem?_eq_getElem h⟩

theorem child?_eq_none (h : ¬t.Has i) : t.child? i n = none := by
  rw [child?, node?_eq_none h, Option.bind_none]

theorem value?_eq_none (h : ¬t.Has i) : t.value? i = none := by
  rw [value?, node?_eq_none h, Option.bind_none]

theorem parent?_eq_none (h : ¬t.Has i) : t.parent? i = none := by
  rw [parent?, node?_eq_none h, Option.bind_none]

theorem not_has_next : ¬t.Has t.next := Nat.lt_irrefl _

theorem ne_next (h : t.Has i) : i ≠ t.next := by
  rintro rfl
  exact not_has_next h

theorem has_of_child? {c : NodeId} (h : t.child? i n = some c) : t.Has i := by
  apply Decidable.byContradiction
  intro hi
  rw [child?_eq_none hi] at h
  cases h

theorem has_of_name? (h : t.name? i = some n) : t.Has i := by
  apply Decidable.byContradiction
  intro hi
  rw [name?, node?_eq_none hi] at h
  cases h

@[simp] theorem valueBelow?_nil : t.valueBelow? i [] = t.value? i := rfl

@[simp] theorem valueBelow?_cons (names : List String) :
    t.valueBelow? i (n :: names) = (t.child? i n).bind (t.valueBelow? · names) := by
  rw [valueBelow?, descend?, List.foldlM_cons]
  cases t.child? i n <;> rfl

theorem node?_modify (f : ScopeNode → ScopeNode) :
    (t.modify id f).node? i = if i = id then (t.node? i).map f else t.node? i := by
  cases i
  cases id
  simp only [node?, modify, Array.getElem?_modify, NodeId.mk.injEq, eq_comm]

theorem node?_clear :
    (t.clear id).node? i =
      if i = id then (t.node? i).map fun n => { n with children := ∅, value := none }
      else t.node? i :=
  node?_modify _

theorem node?_bind :
    (t.bind id value).node? i =
      if i = id then
        (t.node? i).map fun n => { n with value := some value, boundAt := t.clock + 1 }
      else t.node? i := by
  unfold bind
  exact node?_modify _

@[simp] theorem size_clear : (t.clear id).nodes.size = t.nodes.size := by
  simp [clear, modify]

@[simp] theorem size_bind : (t.bind id value).nodes.size = t.nodes.size := by
  simp [bind, modify]

@[simp] theorem name?_clear : (t.clear id).name? i = t.name? i := by
  rw [name?, node?_clear, name?]
  split <;> simp [Function.comp_def]

@[simp] theorem name?_bind : (t.bind id value).name? i = t.name? i := by
  rw [name?, node?_bind, name?]
  split <;> simp [Function.comp_def]

@[simp] theorem parent?_clear : (t.clear id).parent? i = t.parent? i := by
  rw [parent?, node?_clear, parent?]
  split
  · rw [Option.bind_map]
    rfl
  · rfl

@[simp] theorem parent?_bind : (t.bind id value).parent? i = t.parent? i := by
  rw [parent?, node?_bind, parent?]
  split
  · rw [Option.bind_map]
    rfl
  · rfl

theorem child?_clear : (t.clear id).child? i n = if i = id then none else t.child? i n := by
  rw [child?, node?_clear, child?]
  split <;> simp [Option.bind_map]

@[simp] theorem child?_bind : (t.bind id value).child? i n = t.child? i n := by
  rw [child?, node?_bind, child?]
  split
  · rw [Option.bind_map]
    rfl
  · rfl

theorem value?_clear : (t.clear id).value? i = if i = id then none else t.value? i := by
  rw [value?, node?_clear, value?]
  split <;> simp [Option.bind_map]

theorem value?_bind :
    (t.bind id value).value? i = if i = id ∧ t.Has i then some value else t.value? i := by
  rw [value?, node?_bind, value?]
  by_cases hi : i = id
  · by_cases h : t.Has i
    · obtain ⟨n, hn⟩ := exists_node h
      simp [← hi, h, hn]
    · simp [← hi, h, node?_eq_none h]
  · simp [hi]

@[simp] theorem boundAt?_clear : (t.clear id).boundAt? i = t.boundAt? i := by
  rw [boundAt?, node?_clear, boundAt?]
  split <;> simp [Function.comp_def]

theorem boundAt?_bind :
    (t.bind id value).boundAt? i =
      if i = id ∧ t.Has i then some (t.clock + 1) else t.boundAt? i := by
  rw [boundAt?, node?_bind, boundAt?]
  by_cases hi : i = id
  · by_cases h : t.Has i
    · obtain ⟨n, hn⟩ := exists_node h
      simp [← hi, h, hn]
    · simp [← hi, h, node?_eq_none h]
  · simp [hi]

/-- The node that a new child starts as. -/
def fresh (parent : NodeId) (name : String) : ScopeNode := { name, parent := some parent }

theorem node?_addChild :
    (t.addChild parent name).node? i =
      if i = parent then
        (if i = t.next then some (fresh parent name) else t.node? i).map fun n =>
          { n with children := n.children.insert name t.next }
      else if i = t.next then some (fresh parent name)
      else t.node? i := by
  have hpush : (ScopeTree.node? { t with nodes := t.nodes.push (fresh parent name) } i) =
      if i = t.next then some (fresh parent name) else t.node? i := by
    cases i
    simp only [node?, next, Array.getElem?_push, NodeId.mk.injEq]
  rw [← hpush]
  exact node?_modify _

@[simp] theorem size_addChild : (t.addChild parent name).nodes.size = t.nodes.size + 1 := by
  simp [addChild, modify]

theorem has_next_addChild : (t.addChild parent name).Has t.next := by simp [Has, next]

theorem name?_addChild :
    (t.addChild parent name).name? i = if i = t.next then some name else t.name? i := by
  rw [name?, node?_addChild, name?]
  split <;> split <;> simp [fresh, Function.comp_def]

theorem parent?_addChild :
    (t.addChild parent name).parent? i = if i = t.next then some parent else t.parent? i := by
  rw [parent?, node?_addChild, parent?]
  split <;> split
  · rfl
  · rw [Option.bind_map]
    rfl
  · rfl
  · rfl

@[simp] theorem value?_addChild : (t.addChild parent name).value? i = t.value? i := by
  rw [value?, node?_addChild]
  by_cases hi : i = t.next
  · rw [hi, value?_eq_none not_has_next]
    split <;> simp [fresh]
  · rw [if_neg hi, value?]
    split
    · rw [Option.bind_map]
      rfl
    · rfl

theorem boundAt?_addChild :
    (t.addChild parent name).boundAt? i = if i = t.next then some 0 else t.boundAt? i := by
  rw [boundAt?, node?_addChild, boundAt?]
  split <;> split <;> simp [fresh, Function.comp_def]

/-- The new node is a child even of itself, if it is given as its own parent. -/
theorem child?_addChild :
    (t.addChild parent name).child? i n =
      if i = parent ∧ n = name ∧ i.index ≤ t.nodes.size then some t.next
      else t.child? i n := by
  rw [child?, node?_addChild]
  by_cases hp : i = parent
  · by_cases hnext : i = t.next
    · have hle : i.index ≤ t.nodes.size := Nat.le_of_eq (congrArg NodeId.index hnext)
      have hnone : t.child? i n = none := child?_eq_none (hnext ▸ not_has_next)
      by_cases hn : n = name
      · simp [← hp, ← hnext, hn, hle]
      · simp [← hp, ← hnext, hn, hnone, fresh, Ne.symm hn]
    · by_cases h : t.Has i
      · have hle : i.index ≤ t.nodes.size := Nat.le_of_lt h
        obtain ⟨node, hnode⟩ := exists_node h
        by_cases hn : n = name
        · simp [← hp, hnext, hnode, hn, hle]
        · simp [← hp, hnext, child?, hnode, Std.TreeMap.getElem?_insert, hn, Ne.symm hn]
      · have hlt : ¬i.index ≤ t.nodes.size := by
          intro hle
          exact hnext (congrArg NodeId.mk (Nat.le_antisymm hle (Nat.le_of_not_lt h)))
        simp [← hp, hnext, node?_eq_none h, child?, hlt]
  · by_cases hnext : i = t.next
    · rw [if_neg hp, if_pos hnext, child?_eq_none (hnext ▸ not_has_next)]
      simp [hp, fresh]
    · simp [hp, hnext, child?]

theorem node?_rewind :
    (t.rewind point).node? i =
      if i.index < point.size then (t.node? i).map (·.before point) else none := by
  simp only [node?, rewind, Array.getElem?_map, Array.take_eq_extract, Array.getElem?_extract]
  by_cases hi : t.nodes.size ≤ i.index
  · simp [Array.getElem?_eq_none hi]
  · by_cases hp : i.index < point.size
    · rw [if_pos (by omega), if_pos hp, Nat.zero_add]
    · rw [if_neg (by omega), if_neg hp, Option.map_none]

theorem size_rewind : (t.rewind point).nodes.size = min point.size t.nodes.size := by
  simp [rewind]

theorem name?_rewind :
    (t.rewind point).name? i = if i.index < point.size then t.name? i else none := by
  rw [name?, node?_rewind, name?]
  split <;> simp [ScopeNode.before, Function.comp_def]

theorem parent?_rewind :
    (t.rewind point).parent? i = if i.index < point.size then t.parent? i else none := by
  rw [parent?, node?_rewind, parent?]
  split
  · rw [Option.bind_map]
    rfl
  · rfl

theorem boundAt?_rewind :
    (t.rewind point).boundAt? i = if i.index < point.size then t.boundAt? i else none := by
  rw [boundAt?, node?_rewind, boundAt?]
  split <;> simp [ScopeNode.before, Function.comp_def]

theorem child?_rewind :
    (t.rewind point).child? i n =
      if i.index < point.size then
        (t.child? i n).filter fun c => decide (c.index < point.size)
      else none := by
  rw [child?, node?_rewind, child?]
  split
  · cases t.node? i <;> simp [ScopeNode.before]
  · rfl

theorem value?_rewind :
    (t.rewind point).value? i =
      if i.index < point.size ∧ (t.boundAt? i).all (· ≤ point.clock) then t.value? i
      else none := by
  rw [value?, node?_rewind, value?, boundAt?]
  by_cases h : i.index < point.size
  · cases t.node? i with
    | none => simp
    | some node =>
      by_cases hc : point.clock < node.boundAt
      · have hle : ¬node.boundAt ≤ point.clock := Nat.not_le.2 hc
        simp [ScopeNode.before, h, hc, hle]
      · have hle : node.boundAt ≤ point.clock := Nat.le_of_not_lt hc
        simp [ScopeNode.before, h, hc, hle]
  · simp [h]

end CommonTrace.ScopeTree
