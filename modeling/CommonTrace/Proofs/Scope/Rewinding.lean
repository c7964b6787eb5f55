import CommonTrace.Proofs.Scope.Alike
import CommonTrace.Proofs.Scope.Linked

/-!
# What rewinding brings back

Rewinding to a point never brings back more than was there at the point: a change that was
made meanwhile is dropped, and what it has overwritten is lost. So a tree keeps what was there
as long as only nodes are changed that came later, or that had nothing there which could be
overwritten; a vacant node has neither a value nor children.
-/
namespace CommonTrace

/-- Whether a point is not after another. -/
def ScopeCheckpoint.NotAfter (point later : ScopeCheckpoint) : Prop :=
  point.size ≤ later.size ∧ point.clock ≤ later.clock

namespace ScopeTree

/-- A node that has neither children nor a value. -/
def Vacant (t : ScopeTree) (i : NodeId) : Prop := t.value? i = none ∧ ∀ n, t.child? i n = none

theorem vacant_of_not_has {t : ScopeTree} {i : NodeId} (h : ¬t.Has i) : t.Vacant i :=
  ⟨value?_eq_none h, fun _ => child?_eq_none h⟩

theorem Alike.vacant {t t' : ScopeTree} (h : t.Alike t') {i : NodeId} (hv : t.Vacant i) :
    t'.Vacant i :=
  ⟨(h.value i).symm.trans hv.1, fun n => (h.child i n).symm.trans (hv.2 n)⟩

/-- A tree with the nodes of another one, and some of its links and values. -/
structure PartOf (t t' : ScopeTree) : Prop where
  size : t.nodes.size = t'.nodes.size
  name : ∀ i, t.name? i = t'.name? i
  parent : ∀ i, t.parent? i = t'.parent? i
  child : ∀ i n c, t.child? i n = some c → t'.child? i n = some c
  value : ∀ i v, t.value? i = some v → t'.value? i = some v

theorem Alike.partOf {t t' : ScopeTree} (h : t.Alike t') : t.PartOf t' where
  size := h.size
  name := h.name
  parent := h.parent
  child i n _ hc := (h.child i n).symm.trans hc
  value i _ hv := (h.value i).symm.trans hv

namespace PartOf

variable {t t' t'' : ScopeTree}

theorem trans (h : t.PartOf t') (h' : t'.PartOf t'') : t.PartOf t'' where
  size := h.size.trans h'.size
  name i := (h.name i).trans (h'.name i)
  parent i := (h.parent i).trans (h'.parent i)
  child i n c hc := h'.child i n c (h.child i n c hc)
  value i v hv := h'.value i v (h.value i v hv)

/-- A part that lacks nothing looks like the whole. -/
theorem alike (h : t.PartOf t') (hchild : ∀ i n, t.child? i n = none → t'.child? i n = none)
    (hvalue : ∀ i, t.value? i = none → t'.value? i = none) : t.Alike t' where
  size := h.size
  name := h.name
  parent := h.parent
  child i n := by
    cases hc : t.child? i n with
    | none => exact (hchild i n hc).symm
    | some c => exact (h.child i n c hc).symm
  value i := by
    cases hv : t.value? i with
    | none => exact (hvalue i hv).symm
    | some v => exact (h.value i v hv).symm

end PartOf

-- A change that came after a point is dropped by rewinding to the point, and with it what it has
-- overwritten.
section Changes

variable {t : ScopeTree} {point later : ScopeCheckpoint} {parent id : NodeId} {name : String}
  {value : Value}

theorem child?_rewind_addChild (hsize : point.size ≤ t.nodes.size) (i : NodeId) (n : String) :
    ((t.addChild parent name).rewind point).child? i n =
      if i = parent ∧ n = name then none else (t.rewind point).child? i n := by
  rw [child?_rewind, child?_addChild, child?_rewind]
  by_cases hnew : i = parent ∧ n = name
  · have hlate : ¬t.next.index < point.size := Nat.not_lt.2 hsize
    rw [if_pos hnew]
    split
    · rw [if_pos ⟨hnew.1, hnew.2, by omega⟩, Option.filter_some, if_neg (by simpa using hlate)]
    · rfl
  · have hnew' : ¬(i = parent ∧ n = name ∧ i.index ≤ t.nodes.size) := fun h => hnew ⟨h.1, h.2.1⟩
    rw [if_neg hnew, if_neg hnew']

theorem value?_rewind_addChild (hsize : point.size ≤ t.nodes.size) (i : NodeId) :
    ((t.addChild parent name).rewind point).value? i = (t.rewind point).value? i := by
  rw [value?_rewind, value?_addChild, boundAt?_addChild, value?_rewind]
  by_cases hi : i.index < point.size
  · rw [if_neg (ne_next (Nat.lt_of_lt_of_le hi hsize))]
  · simp only [hi, false_and, if_false]

theorem value?_rewind_bind (hclock : point.clock ≤ t.clock) (i : NodeId) :
    ((t.bind id value).rewind point).value? i =
      if i = id then none else (t.rewind point).value? i := by
  rw [value?_rewind, value?_bind, boundAt?_bind, value?_rewind]
  by_cases hi : i = id
  · have hlate : ¬t.clock + 1 ≤ point.clock := Nat.not_le.2 (Nat.lt_succ_of_le hclock)
    by_cases hhas : t.Has i
    · simp [hi, hi ▸ hhas, hlate]
    · simp [hi, hi ▸ hhas, value?_eq_none (hi ▸ hhas)]
  · simp [hi]

theorem child?_rewind_clear (i : NodeId) (n : String) :
    ((t.clear id).rewind point).child? i n =
      if i = id then none else (t.rewind point).child? i n := by
  rw [child?_rewind, child?_clear, child?_rewind]
  by_cases hi : i = id
  · simp [hi]
  · simp [hi]

theorem value?_rewind_clear (i : NodeId) :
    ((t.clear id).rewind point).value? i =
      if i = id then none else (t.rewind point).value? i := by
  rw [value?_rewind, value?_clear, boundAt?_clear, value?_rewind]
  by_cases hi : i = id
  · simp [hi]
  · simp [hi]

theorem partOf_rewind_addChild (hsize : point.size ≤ t.nodes.size) :
    ((t.addChild parent name).rewind point).PartOf (t.rewind point) := by
  have hold {i : NodeId} (hi : i.index < point.size) : i ≠ t.next :=
    ne_next (Nat.lt_of_lt_of_le hi hsize)
  refine ⟨?_, fun i => ?_, fun i => ?_, fun i n c hc => ?_, fun i v hv => ?_⟩
  · rw [size_rewind, size_rewind, size_addChild]
    omega
  · rw [name?_rewind, name?_rewind, name?_addChild]
    split
    next hi => rw [if_neg (hold hi)]
    · rfl
  · rw [parent?_rewind, parent?_rewind, parent?_addChild]
    split
    next hi => rw [if_neg (hold hi)]
    · rfl
  · rw [child?_rewind_addChild hsize] at hc
    split at hc
    · cases hc
    · exact hc
  · rwa [value?_rewind_addChild hsize] at hv

theorem partOf_rewind_bind (hclock : point.clock ≤ t.clock) :
    ((t.bind id value).rewind point).PartOf (t.rewind point) := by
  refine ⟨?_, fun i => ?_, fun i => ?_, fun i n c hc => ?_, fun i v hv => ?_⟩
  · rw [size_rewind, size_rewind, size_bind]
  · rw [name?_rewind, name?_rewind, name?_bind]
  · rw [parent?_rewind, parent?_rewind, parent?_bind]
  · rwa [child?_rewind, child?_bind, ← child?_rewind] at hc
  · rw [value?_rewind_bind hclock] at hv
    split at hv
    · cases hv
    · exact hv

theorem partOf_rewind_clear : ((t.clear id).rewind point).PartOf (t.rewind point) := by
  refine ⟨?_, fun i => ?_, fun i => ?_, fun i n c hc => ?_, fun i v hv => ?_⟩
  · rw [size_rewind, size_rewind, size_clear]
  · rw [name?_rewind, name?_rewind, name?_clear]
  · rw [parent?_rewind, parent?_rewind, parent?_clear]
  · rw [child?_rewind_clear] at hc
    split at hc
    · cases hc
    · exact hc
  · rw [value?_rewind_clear] at hv
    split at hv
    · cases hv
    · exact hv

/-- Rewinding to the present drops no node. -/
theorem partOf_rewind_checkpoint : (t.rewind t.checkpoint).PartOf t := by
  refine ⟨?_, fun i => ?_, fun i => ?_, fun i n c hc => ?_, fun i v hv => ?_⟩
  · rw [size_rewind]
    exact Nat.min_self _
  · rw [name?_rewind]
    split
    · rfl
    next hi => rw [name?, node?_eq_none hi, Option.map_none]
  · rw [parent?_rewind]
    split
    · rfl
    next hi => rw [parent?_eq_none hi]
  · rw [child?_rewind] at hc
    split at hc
    · exact (Option.filter_eq_some_iff.1 hc).1
    · cases hc
  · rw [value?_rewind] at hv
    split at hv
    · exact hv
    · cases hv

/-- Rewinding to a later point first makes no difference. -/
theorem alike_rewind_rewind (hl : point.NotAfter later) :
    ((t.rewind later).rewind point).Alike (t.rewind point) := by
  obtain ⟨hsize, hclock⟩ := hl
  refine ⟨?_, fun i => ?_, fun i => ?_, fun i n => ?_, fun i => ?_⟩
  · simp only [size_rewind]
    omega
  · rw [name?_rewind, name?_rewind, name?_rewind]
    split
    · rw [if_pos (by omega)]
    · rfl
  · rw [parent?_rewind, parent?_rewind, parent?_rewind]
    split
    · rw [if_pos (by omega)]
    · rfl
  · rw [child?_rewind, child?_rewind, child?_rewind]
    split
    · rw [if_pos (by omega)]
      cases t.child? i n with
      | none => rfl
      | some c => grind
    · rfl
  · rw [value?_rewind, value?_rewind, value?_rewind, boundAt?_rewind]
    by_cases hi : i.index < point.size
    · have hi' : i.index < later.size := by omega
      cases t.boundAt? i with
      | none => simp [hi, hi']
      | some k => grind
    · simp [hi]

end Changes

/-- Rewinding the tree `t` to a point yields the tree `kept`, as far as can be seen. -/
structure Keeps (point : ScopeCheckpoint) (kept t : ScopeTree) : Prop where
  size_le : point.size ≤ t.nodes.size
  clock_le : point.clock ≤ t.clock
  alike : (t.rewind point).Alike kept

namespace Keeps

variable {point later : ScopeCheckpoint} {kept t : ScopeTree} {parent id : NodeId}
  {name : String}

theorem size_eq (h : Keeps point kept t) : kept.nodes.size = point.size := by
  rw [← h.alike.size, size_rewind, Nat.min_eq_left h.size_le]

/-- The next node is not there yet in what is kept. -/
theorem vacant_next (h : Keeps point kept t) : kept.Vacant t.next := by
  apply vacant_of_not_has
  rw [Has, h.size_eq]
  exact Nat.not_lt.2 h.size_le

/-- A child may be added under a name that is not in use in what is kept. -/
theorem addChild (h : Keeps point kept t) (hnone : kept.child? parent name = none) :
    Keeps point kept (t.addChild parent name) := by
  refine ⟨?_, h.clock_le, Alike.trans ?_ h.alike⟩
  · rw [size_addChild]
    exact Nat.le_succ_of_le h.size_le
  · refine (partOf_rewind_addChild h.size_le).alike (fun i n hc => ?_) fun i hv => ?_
    · rw [child?_rewind_addChild h.size_le] at hc
      split at hc
      next hnew => rw [hnew.1, hnew.2, h.alike.child, hnone]
      · exact hc
    · rwa [value?_rewind_addChild h.size_le] at hv

/-- A node may be bound that is not bound in what is kept. -/
theorem bind (h : Keeps point kept t) (hnone : kept.value? id = none) (value : Value) :
    Keeps point kept (t.bind id value) := by
  refine ⟨?_, Nat.le_succ_of_le h.clock_le, Alike.trans ?_ h.alike⟩
  · rw [size_bind]
    exact h.size_le
  · refine (partOf_rewind_bind h.clock_le).alike (fun i n hc => ?_) fun i hv => ?_
    · rwa [child?_rewind, child?_bind, ← child?_rewind] at hc
    · rw [value?_rewind_bind h.clock_le] at hv
      split at hv
      next hi => rw [hi, h.alike.value, hnone]
      · exact hv

/-- A node may be cleared that has neither children nor a value in what is kept. -/
theorem clear (h : Keeps point kept t) (hv : kept.Vacant id) :
    Keeps point kept (t.clear id) := by
  refine ⟨?_, h.clock_le, Alike.trans ?_ h.alike⟩
  · rw [size_clear]
    exact h.size_le
  · refine partOf_rewind_clear.alike (fun i n hc => ?_) fun i hv' => ?_
    · rw [child?_rewind_clear] at hc
      split at hc
      next hi => rw [hi, h.alike.child, hv.2]
      · exact hc
    · rw [value?_rewind_clear] at hv'
      split at hv'
      next hi => rw [hi, h.alike.value, hv.1]
      · exact hv'

/-- Rewinding to the same or to a later point changes nothing that is kept. -/
theorem rewind (h : Keeps point kept t) (hl : point.NotAfter later) :
    Keeps point kept (t.rewind later) := by
  refine ⟨?_, h.clock_le, (alike_rewind_rewind hl).trans h.alike⟩
  rw [size_rewind]
  exact Nat.le_min.2 ⟨hl.1, h.size_le⟩

/-- A tree keeps what is there now. -/
theorem now (h : t.Closed) : Keeps t.checkpoint t t := by
  refine ⟨Nat.le_refl _, Nat.le_refl _, partOf_rewind_checkpoint.alike (fun i n hc => ?_)
    fun i hv => ?_⟩
  · rw [child?_rewind] at hc
    split at hc
    · cases hchild : t.child? i n with
      | none => rfl
      | some c =>
        have hlt : c.index < t.checkpoint.size := h.child i n c hchild
        rw [hchild, Option.filter_some, if_pos (decide_eq_true hlt)] at hc
        cases hc
    next hi => exact child?_eq_none hi
  · rw [value?_rewind] at hv
    split at hv
    · exact hv
    next hi =>
      by_cases hhas : t.Has i
      · refine absurd ⟨hhas, ?_⟩ hi
        cases hk : t.boundAt? i with
        | none => rfl
        | some k => exact decide_eq_true (h.bound i k hk)
      · exact value?_eq_none hhas

end Keeps

end ScopeTree

end CommonTrace
