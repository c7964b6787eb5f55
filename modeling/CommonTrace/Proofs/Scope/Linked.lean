import CommonTrace.Proofs.Scope.View

/-!
# The links of a tree of scopes

The nodes of a tree form a forest below the dynamic scopes: parents come before their
children, a link leads to a node that names its parent and itself, and no binding is
later than the last one. All operations keep it so. In such a tree a node is never
reached that does not exist, and rewinding to the present changes nothing.
-/
namespace CommonTrace

/-- The number of dynamic scopes, which are the first nodes of a tree. -/
def DynamicScope.count : Nat := all.length

namespace ScopeTree

/-- Nothing in a tree is later than the tree: links lead to nodes that exist, and no binding is
later than the last one. -/
structure Closed (t : ScopeTree) : Prop where
  child : ∀ p n c, t.child? p n = some c → t.Has c
  bound : ∀ i k, t.boundAt? i = some k → k ≤ t.clock

namespace Closed

variable {t : ScopeTree}

theorem addChild (h : t.Closed) (parent : NodeId) (name : String) :
    (t.addChild parent name).Closed where
  child p n c hc := by
    rw [child?_addChild] at hc
    rw [Has, size_addChild]
    split at hc
    · cases hc
      exact Nat.lt_succ_self _
    · exact Nat.lt_succ_of_lt (h.child p n c hc)
  bound i k hk := by
    rw [boundAt?_addChild] at hk
    split at hk
    · cases hk
      exact Nat.zero_le _
    · exact h.bound i k hk

theorem bind (h : t.Closed) (id : NodeId) (value : Value) : (t.bind id value).Closed where
  child p n c hc := by
    rw [child?_bind] at hc
    rw [Has, size_bind]
    exact h.child p n c hc
  bound i k hk := by
    rw [boundAt?_bind] at hk
    split at hk
    · cases hk
      exact Nat.le_refl _
    · exact Nat.le_succ_of_le (h.bound i k hk)

theorem clear (h : t.Closed) (id : NodeId) : (t.clear id).Closed where
  child p n c hc := by
    rw [child?_clear] at hc
    rw [Has, size_clear]
    split at hc
    · cases hc
    · exact h.child p n c hc
  bound i k hk := by
    rw [boundAt?_clear] at hk
    exact h.bound i k hk

theorem rewind (h : t.Closed) (point : ScopeCheckpoint) : (t.rewind point).Closed where
  child p n c hc := by
    rw [child?_rewind] at hc
    rw [Has, size_rewind]
    split at hc
    · obtain ⟨hc, hlt⟩ := Option.filter_eq_some_iff.1 hc
      exact Nat.lt_min.2 ⟨of_decide_eq_true hlt, h.child p n c hc⟩
    · cases hc
  bound i k hk := by
    rw [boundAt?_rewind] at hk
    split at hk
    · exact h.bound i k hk
    · cases hk

end Closed

/-- The nodes of a tree are the dynamic scopes and what hangs below them. -/
structure Linked (t : ScopeTree) : Prop where
  root : ∀ scope, t.name? (root scope) = some scope.path ∧ t.parent? (ScopeTree.root scope) = none
  parent : ∀ i, DynamicScope.count ≤ i.index → t.Has i →
    ∃ p, t.parent? i = some p ∧ p.index < i.index
  child : ∀ p n c, t.child? p n = some c → t.parent? c = some p ∧ t.name? c = some n
  bound : ∀ i k, t.boundAt? i = some k → k ≤ t.clock

theorem index_root_lt (scope : DynamicScope) : (root scope).index < DynamicScope.count := by
  cases scope <;> decide

theorem eq_root_of_lt {i : NodeId} (h : i.index < DynamicScope.count) :
    ∃ scope, i = root scope := by
  obtain ⟨index⟩ := i
  have hall : ∀ k < DynamicScope.count, ∃ scope, k = DynamicScope.index scope := by
    intro k hk
    match k, hk with
    | 0, _ => exact ⟨.environment, rfl⟩
    | 1, _ => exact ⟨.packetHeader, rfl⟩
    | 2, _ => exact ⟨.packetContext, rfl⟩
    | 3, _ => exact ⟨.eventHeader, rfl⟩
    | 4, _ => exact ⟨.streamEventContext, rfl⟩
    | 5, _ => exact ⟨.eventContext, rfl⟩
    | 6, _ => exact ⟨.eventFields, rfl⟩
  obtain ⟨scope, rfl⟩ := hall index h
  exact ⟨scope, rfl⟩

theorem root_injective {scope scope' : DynamicScope} (h : root scope = root scope') :
    scope = scope' := by
  cases scope <;> cases scope' <;> first | rfl | exact absurd h (by decide)

namespace Linked

variable {t : ScopeTree} {i p c parent : NodeId} {name n : String}

theorem has_root (h : t.Linked) (scope : DynamicScope) : t.Has (ScopeTree.root scope) :=
  has_of_name? (h.root scope).1

theorem count_le (h : t.Linked) : DynamicScope.count ≤ t.nodes.size := h.has_root .eventFields

theorem has_child (h : t.Linked) (hc : t.child? p n = some c) : t.Has c :=
  has_of_name? (h.child p n c hc).2

theorem closed (h : t.Linked) : t.Closed := ⟨fun _ _ _ hc => h.has_child hc, h.bound⟩

theorem root_or_parent (h : t.Linked) (hi : t.Has i) :
    (∃ scope, i = ScopeTree.root scope) ∨ ∃ p, t.parent? i = some p ∧ p.index < i.index := by
  rcases Nat.lt_or_ge i.index DynamicScope.count with hlt | hle
  · exact .inl (eq_root_of_lt hlt)
  · exact .inr (h.parent i hle hi)

theorem parent_lt (h : t.Linked) (hp : t.parent? i = some p) : p.index < i.index := by
  have hi : t.Has i := by
    apply Decidable.byContradiction
    intro hi
    rw [parent?_eq_none hi] at hp
    cases hp
  rcases h.root_or_parent hi with ⟨scope, rfl⟩ | ⟨p', hp', hlt⟩
  · rw [(h.root scope).2] at hp
    cases hp
  · cases hp.symm.trans hp'
    exact hlt

/-- Links lead from a node to later ones. -/
theorem lt_child (h : t.Linked) (hc : t.child? p n = some c) : p.index < c.index :=
  h.parent_lt (h.child p n c hc).1

theorem empty : ScopeTree.empty.Linked where
  root scope := by cases scope <;> exact ⟨rfl, rfl⟩
  parent i hle hi := absurd hi (Nat.not_lt.2 hle)
  child p n c hc := by
    obtain ⟨scope, rfl⟩ := eq_root_of_lt (i := p) (has_of_child? hc)
    cases scope <;> simp [child?, node?, ScopeTree.empty, DynamicScope.all, ScopeTree.root,
      DynamicScope.index] at hc
  bound i k hk := by
    rcases Nat.lt_or_ge i.index DynamicScope.count with hlt | hge
    · obtain ⟨scope, rfl⟩ := eq_root_of_lt hlt
      cases scope <;> cases hk <;> exact Nat.le_refl _
    · have hnone : ¬ScopeTree.empty.Has i := Nat.not_lt.2 hge
      rw [boundAt?, node?_eq_none hnone] at hk
      cases hk

theorem addChild (h : t.Linked) (hp : t.Has parent) : (t.addChild parent name).Linked where
  root scope := by
    rw [name?_addChild, parent?_addChild, if_neg (ne_next (h.has_root scope)),
      if_neg (ne_next (h.has_root scope))]
    exact h.root scope
  parent i hle hi := by
    rw [parent?_addChild]
    split
    next hnext =>
      subst hnext
      exact ⟨parent, rfl, hp⟩
    next hne =>
      refine h.parent i hle ?_
      have hlt : i.index < t.nodes.size + 1 := by simpa [Has] using hi
      refine Nat.lt_of_le_of_ne (Nat.le_of_lt_succ hlt) fun he => hne (congrArg NodeId.mk he)
  child p n c hc := by
    rw [child?_addChild] at hc
    rw [parent?_addChild, name?_addChild]
    split at hc
    next hnew =>
      obtain ⟨rfl, rfl, -⟩ := hnew
      cases hc
      exact ⟨if_pos rfl, if_pos rfl⟩
    next =>
      rw [if_neg (ne_next (h.has_child hc)), if_neg (ne_next (h.has_child hc))]
      exact h.child p n c hc
  bound := (h.closed.addChild parent name).bound

theorem bind (h : t.Linked) (id : NodeId) (value : Value) : (t.bind id value).Linked where
  root scope := by simpa using h.root scope
  parent i hle hi := by
    rw [parent?_bind]
    exact h.parent i hle (by simpa [Has] using hi)
  child p n c hc := by
    rw [child?_bind] at hc
    simpa using h.child p n c hc
  bound := (h.closed.bind id value).bound

theorem clear (h : t.Linked) (id : NodeId) : (t.clear id).Linked where
  root scope := by simpa using h.root scope
  parent i hle hi := by
    rw [parent?_clear]
    exact h.parent i hle (by simpa [Has] using hi)
  child p n c hc := by
    rw [child?_clear] at hc
    split at hc
    · cases hc
    · simpa using h.child p n c hc
  bound := (h.closed.clear id).bound

/-- The dynamic scopes are never dropped, since a point is reached after them. -/
theorem rewind (h : t.Linked) {point : ScopeCheckpoint} (hp : DynamicScope.count ≤ point.size) :
    (t.rewind point).Linked where
  root scope := by
    have hlt := Nat.lt_of_lt_of_le (index_root_lt scope) hp
    rw [name?_rewind, parent?_rewind, if_pos hlt, if_pos hlt]
    exact h.root scope
  parent i hle hi := by
    have hlt : i.index < min point.size t.nodes.size := by simpa [Has, size_rewind] using hi
    rw [parent?_rewind, if_pos (by omega)]
    exact h.parent i hle (show i.index < t.nodes.size by omega)
  child p n c hc := by
    rw [child?_rewind] at hc
    split at hc
    · obtain ⟨hc, hlt⟩ := Option.filter_eq_some_iff.1 hc
      rw [name?_rewind, parent?_rewind, if_pos (of_decide_eq_true hlt),
        if_pos (of_decide_eq_true hlt)]
      exact h.child p n c hc
    · cases hc
  bound := (h.closed.rewind point).bound

end Linked

/-- The trees that the operations build, given nodes that exist and points that were reached
after the dynamic scopes. -/
inductive Built : ScopeTree → Prop
  | empty : Built .empty
  | addChild {t : ScopeTree} {parent : NodeId} (h : Built t) (hp : t.Has parent)
      (name : String) : Built (t.addChild parent name)
  | bind {t : ScopeTree} (h : Built t) (id : NodeId) (value : Value) : Built (t.bind id value)
  | clear {t : ScopeTree} (h : Built t) (id : NodeId) : Built (t.clear id)
  | rewind {t : ScopeTree} {point : ScopeCheckpoint} (h : Built t)
      (hp : DynamicScope.count ≤ point.size) : Built (t.rewind point)

theorem Built.linked {t : ScopeTree} (h : t.Built) : t.Linked := by
  induction h with
  | empty => exact .empty
  | addChild _ hp name ih => exact ih.addChild hp
  | bind _ id value ih => exact ih.bind id value
  | clear _ id ih => exact ih.clear id
  | rewind _ hp ih => exact ih.rewind hp

end ScopeTree

end CommonTrace
