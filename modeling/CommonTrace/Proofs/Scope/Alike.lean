import CommonTrace.Proofs.Scope.View

/-!
# Trees that look alike

Two trees look alike if the same is seen in them, but for when their nodes were bound.
Paths lead to the same values in both, and stay to do so when the same is done to both:
what was decoded and dropped before leaves no trace but the count of bindings.
-/
namespace CommonTrace.ScopeTree

/-- Trees with the same names, parents, children and values under the same numbers. -/
structure Alike (t t' : ScopeTree) : Prop where
  size : t.nodes.size = t'.nodes.size
  name : ∀ i, t.name? i = t'.name? i
  parent : ∀ i, t.parent? i = t'.parent? i
  child : ∀ i n, t.child? i n = t'.child? i n
  value : ∀ i, t.value? i = t'.value? i

namespace Alike

variable {t t' t'' : ScopeTree}

theorem refl (t : ScopeTree) : t.Alike t :=
  ⟨rfl, fun _ => rfl, fun _ => rfl, fun _ _ => rfl, fun _ => rfl⟩

theorem symm (h : t.Alike t') : t'.Alike t :=
  ⟨h.size.symm, fun i => (h.name i).symm, fun i => (h.parent i).symm,
    fun i n => (h.child i n).symm, fun i => (h.value i).symm⟩

theorem trans (h : t.Alike t') (h' : t'.Alike t'') : t.Alike t'' :=
  ⟨h.size.trans h'.size, fun i => (h.name i).trans (h'.name i),
    fun i => (h.parent i).trans (h'.parent i), fun i n => (h.child i n).trans (h'.child i n),
    fun i => (h.value i).trans (h'.value i)⟩

theorem next (h : t.Alike t') : t.next = t'.next := congrArg NodeId.mk h.size

theorem has (h : t.Alike t') (i : NodeId) : t.Has i ↔ t'.Has i := by
  rw [Has, Has, h.size]

theorem addChild (h : t.Alike t') (parent : NodeId) (name : String) :
    (t.addChild parent name).Alike (t'.addChild parent name) where
  size := by simp [h.size]
  name i := by rw [name?_addChild, name?_addChild, h.next, h.name]
  parent i := by rw [parent?_addChild, parent?_addChild, h.next, h.parent]
  child i n := by rw [child?_addChild, child?_addChild, h.next, h.size, h.child]
  value i := by rw [value?_addChild, value?_addChild, h.value]

theorem bind (h : t.Alike t') (id : NodeId) (value : Value) :
    (t.bind id value).Alike (t'.bind id value) where
  size := by simp [h.size]
  name i := by rw [name?_bind, name?_bind, h.name]
  parent i := by rw [parent?_bind, parent?_bind, h.parent]
  child i n := by rw [child?_bind, child?_bind, h.child]
  value i := by simp only [value?_bind, h.has, h.value]

theorem clear (h : t.Alike t') (id : NodeId) : (t.clear id).Alike (t'.clear id) where
  size := by simp [h.size]
  name i := by rw [name?_clear, name?_clear, h.name]
  parent i := by rw [parent?_clear, parent?_clear, h.parent]
  child i n := by rw [child?_clear, child?_clear, h.child]
  value i := by rw [value?_clear, value?_clear, h.value]

theorem descend? (h : t.Alike t') (start : NodeId) (names : List String) :
    t.descend? start names = t'.descend? start names := by
  have hchild : (fun id name => t.child? id name) = fun id name => t'.child? id name := by
    funext id name
    exact h.child id name
  rw [ScopeTree.descend?, ScopeTree.descend?, hchild]

theorem valueBelow? (h : t.Alike t') (start : NodeId) (names : List String) :
    t.valueBelow? start names = t'.valueBelow? start names := by
  have hvalue : t.value? = t'.value? := by
    funext i
    exact h.value i
  rw [ScopeTree.valueBelow?, ScopeTree.valueBelow?, h.descend?, hvalue]

theorem ancestor? (h : t.Alike t') (id : NodeId) : t.ancestor? id = t'.ancestor? id := by
  rw [ScopeTree.ancestor?, ScopeTree.ancestor?, h.parent]

theorem relative? (h : t.Alike t') (names : List String) (start : NodeId) :
    t.relative? names start = t'.relative? names start := by
  fun_induction ScopeTree.relative? t names start with
  | case1 start value hvalue =>
    rw [ScopeTree.relative?, ← h.valueBelow?, hvalue]
  | case2 start hnone parent hlt hparent ih =>
    rw [ih, ScopeTree.relative?.eq_1 t' names start, ← h.valueBelow?, hnone, ← h.ancestor?, hparent]
  | case3 start hnone hroot =>
    rw [ScopeTree.relative?, ← h.valueBelow?, hnone, ← h.ancestor?, hroot]

theorem lookupTokens? (h : t.Alike t') (start : NodeId) (names : List String) :
    t.lookupTokens? start names = t'.lookupTokens? start names := by
  cases names with
  | nil => rfl
  | cons first rest =>
    simp only [ScopeTree.lookupTokens?, h.valueBelow?, h.relative?]

theorem names (h : t.Alike t') (id : NodeId) : t.names id = t'.names id := by
  fun_induction ScopeTree.names t id with
  | case1 id hnone =>
    have hname := h.name id
    rw [name?, hnone] at hname
    rw [ScopeTree.names, Option.map_eq_none_iff.1 hname.symm]
  | case2 id node hnode parent hlt hparent ih =>
    have hname := h.name id
    rw [name?, hnode] at hname
    obtain ⟨node', hnode', heq⟩ := Option.map_eq_some_iff.1 hname.symm
    simp only [ih, ScopeTree.names.eq_1 t' id, hnode', ← h.ancestor?, hparent, heq]
  | case3 id node hnode hroot =>
    have hname := h.name id
    rw [name?, hnode] at hname
    obtain ⟨node', hnode', heq⟩ := Option.map_eq_some_iff.1 hname.symm
    simp only [ScopeTree.names, hnode', ← h.ancestor?, hroot, heq]

theorem path (h : t.Alike t') (id : NodeId) : t.path id = t'.path id := by
  rw [ScopeTree.path, ScopeTree.path, h.names]

end Alike

end CommonTrace.ScopeTree
