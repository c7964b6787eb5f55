import CommonTrace.Proofs.Scope.Rewinding

/-!
# Changes to a tree of scopes

Whatever is decoded changes a tree by adding, binding and clearing nodes: some that it
was given, and those it has added itself. Such changes keep the tree linked, leave every
other node as it was, and keep what was there at an earlier point if the nodes given were
vacant then.
-/
namespace CommonTrace.ScopeTree

/-- Whether a node may be changed between the trees `t` and `t'`: it is one of `own`, or was
added in between. -/
def Mine (own : NodeId → Prop) (t t' : ScopeTree) (i : NodeId) : Prop :=
  own i ∨ t.nodes.size ≤ i.index ∧ t'.Has i

/-- The trees that are reached from the tree `t` by changing nodes of `own` and nodes that
were added meanwhile. -/
inductive Edits (own : NodeId → Prop) (t : ScopeTree) : ScopeTree → Prop
  | refl : Edits own t t
  | addChild {t' : ScopeTree} {parent : NodeId} (h : Edits own t t') (hp : Mine own t t' parent)
      (name : String) : Edits own t (t'.addChild parent name)
  | bind {t' : ScopeTree} {i : NodeId} (h : Edits own t t') (hi : Mine own t t' i)
      (value : Value) : Edits own t (t'.bind i value)
  | clear {t' : ScopeTree} {i : NodeId} (h : Edits own t t') (hi : Mine own t t' i) :
      Edits own t (t'.clear i)

namespace Edits

variable {own own' : NodeId → Prop} {t t' t'' kept : ScopeTree} {i : NodeId} {n : String}
  {point : ScopeCheckpoint}

theorem size_le (h : Edits own t t') : t.nodes.size ≤ t'.nodes.size := by
  induction h with
  | refl => exact Nat.le_refl _
  | addChild _ _ name ih => simpa using Nat.le_succ_of_le ih
  | bind _ _ value ih => simpa using ih
  | clear _ _ ih => simpa using ih

theorem clock_le (h : Edits own t t') : t.clock ≤ t'.clock := by
  induction h with
  | refl => exact Nat.le_refl _
  | addChild _ _ name ih => exact ih
  | bind _ _ value ih => exact Nat.le_succ_of_le ih
  | clear _ _ ih => exact ih

theorem has (h : Edits own t t') (hi : t.Has i) : t'.Has i := Nat.lt_of_lt_of_le hi h.size_le

/-- No node is ever given another name. -/
theorem name? (h : Edits own t t') (hi : t.Has i) : t'.name? i = t.name? i := by
  induction h with
  | refl => rfl
  | addChild hu hp name ih => rw [name?_addChild, if_neg (ne_next (hu.has hi)), ih]
  | bind _ _ value ih => rw [name?_bind, ih]
  | clear _ _ ih => rw [name?_clear, ih]

/-- No node is ever moved below another parent. -/
theorem parent? (h : Edits own t t') (hi : t.Has i) : t'.parent? i = t.parent? i := by
  induction h with
  | refl => rfl
  | addChild hu hp name ih => rw [parent?_addChild, if_neg (ne_next (hu.has hi)), ih]
  | bind _ _ value ih => rw [parent?_bind, ih]
  | clear _ _ ih => rw [parent?_clear, ih]

/-- Changes after changes, to nodes that may be changed before. -/
theorem trans (h : Edits own t t') (h' : Edits own' t' t'')
    (hown : ∀ i, own' i → Mine own t t' i) : Edits own t t'' := by
  have hmine {u : ScopeTree} (hu : Edits own' t' u) {i : NodeId} (hi : Mine own' t' u i) :
      Mine own t u i := by
    rcases hi with hi | ⟨hle, hi⟩
    · rcases hown i hi with hi | ⟨hle, hi⟩
      · exact .inl hi
      · exact .inr ⟨hle, hu.has hi⟩
    · exact .inr ⟨Nat.le_trans h.size_le hle, hi⟩
  induction h' with
  | refl => exact h
  | addChild hu hp name ih => exact ih.addChild (hmine hu hp) name
  | bind hu hi value ih => exact ih.bind (hmine hu hi) value
  | clear hu hi ih => exact ih.clear (hmine hu hi)

/-- Changes to the child that was added last. -/
theorem enter {parent : NodeId} (hp : own parent) (name : String)
    (h : Edits (· = t.next) (t.addChild parent name) t'') : Edits own t t'' := by
  refine (refl.addChild (.inl hp) name).trans h ?_
  rintro i rfl
  exact .inr ⟨Nat.le_refl _, has_next_addChild⟩

/-- What adding, binding and clearing nodes preserve stays so where the nodes given exist. -/
theorem preserves {C : ScopeTree → Prop} (h : Edits own t t') (hown : ∀ i, own i → t.Has i)
    (ht : C t) (hadd : ∀ u parent name, C u → u.Has parent → C (u.addChild parent name))
    (hbind : ∀ u i value, C u → C (u.bind i value)) (hclear : ∀ u i, C u → C (u.clear i)) :
    C t' := by
  induction h with
  | refl => exact ht
  | addChild hu hp name ih =>
    refine hadd _ _ name ih ?_
    rcases hp with hp | ⟨-, hp⟩
    · exact hu.has (hown _ hp)
    · exact hp
  | bind _ _ value ih => exact hbind _ _ value ih
  | clear _ _ ih => exact hclear _ _ ih

theorem linked (h : Edits own t t') (ht : t.Linked) (hown : ∀ i, own i → t.Has i) :
    t'.Linked :=
  h.preserves hown ht (fun _ _ _ hu hp => hu.addChild hp) (fun _ i value hu => hu.bind i value)
    fun _ i hu => hu.clear i

theorem built (h : Edits own t t') (ht : t.Built) (hown : ∀ i, own i → t.Has i) : t'.Built :=
  h.preserves hown ht (fun _ _ name hu hp => hu.addChild hp name)
    (fun _ i value hu => hu.bind i value) fun _ i hu => hu.clear i

theorem closed (h : Edits own t t') (ht : t.Closed) : t'.Closed := by
  induction h with
  | refl => exact ht
  | addChild _ _ name ih => exact ih.addChild _ name
  | bind _ _ value ih => exact ih.bind _ value
  | clear _ _ ih => exact ih.clear _

/-- What was there at a point is kept where the nodes given were vacant. -/
theorem keeps (h : Edits own t t') (ht : Keeps point kept t) (hown : ∀ i, own i → kept.Vacant i) :
    Keeps point kept t' := by
  have hvacant {u : ScopeTree} {i : NodeId} (hi : Mine own t u i) : kept.Vacant i := by
    rcases hi with hi | ⟨hle, -⟩
    · exact hown i hi
    · apply vacant_of_not_has
      rw [Has, ht.size_eq]
      exact Nat.not_lt.2 (Nat.le_trans ht.size_le hle)
  induction h with
  | refl => exact ht
  | addChild _ hp name ih => exact ih.addChild ((hvacant hp).2 name)
  | bind _ hi value ih => exact ih.bind (hvacant hi).1 value
  | clear _ hi ih => exact ih.clear (hvacant hi)

/-- Whatever is changed, rewinding to a point before the changes brings back no more than was there
before them. -/
theorem partOf_rewind (h : Edits own t t') (hsize : point.size ≤ t.nodes.size)
    (hclock : point.clock ≤ t.clock) : (t'.rewind point).PartOf (t.rewind point) := by
  induction h with
  | refl => exact (Alike.refl _).partOf
  | addChild hu _ name ih => exact (partOf_rewind_addChild (Nat.le_trans hsize hu.size_le)).trans ih
  | bind hu _ value ih => exact (partOf_rewind_bind (Nat.le_trans hclock hu.clock_le)).trans ih
  | clear _ _ ih => exact partOf_rewind_clear.trans ih

/-- A node that was there and is none of those given stays as it was. -/
theorem frame (h : Edits own t t') (hi : t.Has i) (hown : ¬own i) :
    t'.value? i = t.value? i ∧ t'.parent? i = t.parent? i ∧ ∀ n, t'.child? i n = t.child? i n := by
  have hne {u : ScopeTree} {j : NodeId} (hj : Mine own t u j) : i ≠ j := by
    rintro rfl
    rcases hj with hj | ⟨hle, -⟩
    · exact hown hj
    · exact Nat.not_lt.2 hle hi
  suffices hseen : t'.value? i = t.value? i ∧ ∀ n, t'.child? i n = t.child? i n from
    ⟨hseen.1, h.parent? hi, hseen.2⟩
  induction h with
  | refl => exact ⟨rfl, fun n => rfl⟩
  | addChild hu hp name ih =>
    refine ⟨by rw [value?_addChild, ih.1], fun n => ?_⟩
    rw [child?_addChild, if_neg fun hc => hne hp hc.1, ih.2 n]
  | bind hu hj value ih =>
    refine ⟨?_, fun n => by rw [child?_bind, ih.2 n]⟩
    rw [value?_bind, if_neg fun hc => hne hj hc.1, ih.1]
  | clear hu hj ih =>
    refine ⟨?_, fun n => ?_⟩
    · rw [value?_clear, if_neg (hne hj), ih.1]
    · rw [child?_clear, if_neg (hne hj), ih.2 n]

/-- A link that was not there before leads to a node that was added. -/
theorem child?_or_new {c : NodeId} (h : Edits own t t') (hc : t'.child? i n = some c) :
    t.child? i n = some c ∨ t.nodes.size ≤ c.index := by
  induction h with
  | refl => exact .inl hc
  | addChild hu _ name ih =>
    rw [child?_addChild] at hc
    split at hc
    · cases hc
      exact .inr hu.size_le
    · exact ih hc
  | bind _ _ value ih =>
    rw [child?_bind] at hc
    exact ih hc
  | clear _ _ ih =>
    rw [child?_clear] at hc
    split at hc
    · cases hc
    · exact ih hc

end Edits

/-- A linked tree from which rewinding to a point restores the tree `kept`. -/
structure Restores (point : ScopeCheckpoint) (kept t : ScopeTree) : Prop
    extends Keeps point kept t where
  linked : t.Linked

namespace Restores

variable {own : NodeId → Prop} {point later : ScopeCheckpoint} {kept t t' : ScopeTree}

theorem now (h : t.Linked) : Restores t.checkpoint t t := ⟨.now h.closed, h⟩

/-- Nodes that were there and were vacant may be changed. -/
theorem edits (h : Restores point kept t) (ht : Edits own t t')
    (hown : ∀ i, own i → kept.Has i ∧ kept.Vacant i) : Restores point kept t' := by
  refine ⟨ht.keeps h.toKeeps fun i hi => (hown i hi).2, ht.linked h.linked fun i hi => ?_⟩
  have hlt : i.index < kept.nodes.size := (hown i hi).1
  rw [h.size_eq] at hlt
  exact Nat.lt_of_lt_of_le hlt h.size_le

theorem rewind (h : Restores point kept t) (hl : point.NotAfter later)
    (hcount : DynamicScope.count ≤ later.size) : Restores point kept (t.rewind later) :=
  ⟨h.toKeeps.rewind hl, h.linked.rewind hcount⟩

end Restores

end CommonTrace.ScopeTree
