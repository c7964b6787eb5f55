import CommonTrace.Proofs.Decoding.Effects
import CommonTrace.Proofs.Lexical.Mirroring

/-!
# What decoding registers

Once a value is decoded at a node, the names below the node lead to the parts of the value: from
member to member, to what was decoded there and to nothing else. This holds whatever was in the
tree elsewhere, as long as the node was empty, and a dynamic scope is emptied before its content
is decoded.
-/
namespace CommonTrace

namespace Value

/-- Elements under their indices. -/
def indexed (elements : List Value) : List (String × Value) :=
  elements.mapIdx fun index element => (toString index, element)

/-- What a value is made of, by name and in order. -/
def members : Value → List (String × Value)
  | struct _ _ _ _ fields => fields
  | array _ _ _ _ elements => indexed elements
  | sequence _ _ _ _ elements => indexed elements
  | variant _ _ _ _ label current => [(label, current)]
  | _ => []

/-- The value that names lead to from member to member. -/
def below? : Value → List String → Option Value
  | v, [] => some v
  | v, name :: names => (Lexical.last? name v.members).bind (·.below? names)

theorem indexed_append (elements : List Value) (element : Value) :
    indexed (elements ++ [element]) =
      indexed elements ++ [(toString elements.length, element)] := by
  simp [indexed, List.mapIdx_append]

@[simp] theorem below?_nil (v : Value) : v.below? [] = some v := rfl

@[simp] theorem below?_cons (v : Value) (name : String) (names : List String) :
    v.below? (name :: names) = (Lexical.last? name v.members).bind (·.below? names) := rfl

end Value

namespace ScopeTree

/-- A linked tree in which the members given are found by name below a node, and nothing else. -/
structure Bears (node : NodeId) (members : List (String × Value)) (t : ScopeTree) : Prop where
  linked : t.Linked
  has : t.Has node
  below : ∀ name names, t.valueBelow? node (name :: names) =
    (Lexical.last? name members).bind (·.below? names)

/-- A linked tree in which names lead to the same below a node as within a value. -/
structure Registers (node : NodeId) (value : Value) (t : ScopeTree) : Prop where
  linked : t.Linked
  has : t.Has node
  below : ∀ names, t.valueBelow? node names = value.below? names

variable {t t' : ScopeTree} {node : NodeId} {members : List (String × Value)} {name : String}
  {value : Value}

theorem bears_of_vacant (ht : t.Linked) (hnode : t.Has node)
    (hchild : ∀ n, t.child? node n = none) : Bears node [] t :=
  ⟨ht, hnode, fun name names => by rw [valueBelow?_cons, hchild]; rfl⟩

/-- A node that is added bears nothing. -/
theorem Bears.enter (h : Bears node members t) (name : String) :
    Bears t.next [] (t.addChild node name) := by
  refine bears_of_vacant (h.linked.addChild h.has) has_next_addChild fun n => ?_
  have hne : t.next ≠ node := (ne_next h.has).symm
  rw [child?_addChild, if_neg fun hc => hne hc.1, child?_eq_none not_has_next]

/-- A node is bound to the value that is made of the members that it bears. -/
theorem Bears.bind (h : Bears node value.members t) : Registers node value (t.bind node value) := by
  refine ⟨h.linked.bind node value, by simpa [Has] using h.has, fun names => ?_⟩
  have hedits : Edits (· = node) t (t.bind node value) := .bind .refl (.inl (by rfl)) value
  cases names with
  | nil => rw [valueBelow?_nil, value?_bind, if_pos ⟨rfl, h.has⟩, Value.below?_nil]
  | cons name names =>
    rw [Value.below?_cons, ← h.below, valueBelow?_cons, valueBelow?_cons, child?_bind]
    cases hc : t.child? node name with
    | none => rfl
    | some c => rw [Option.bind_some, Option.bind_some, hedits.valueBelow?_child h.linked hc]

/-- A value registered at a node that was added is one more member. -/
theorem Bears.leave (h : Bears node members t)
    (hedits : Edits (· = t.next) (t.addChild node name) t')
    (hvalue : Registers t.next value t') : Bears node (members ++ [(name, value)]) t' := by
  have hadded : (t.addChild node name).Linked := h.linked.addChild h.has
  have hadd : Edits (· = node) t (t.addChild node name) := .addChild .refl (.inl (by rfl)) name
  have hnode : (t.addChild node name).Has node := hadd.has h.has
  have hchildren := (hedits.frame hnode (ne_next h.has)).2.2
  refine ⟨hvalue.linked, hedits.has hnode, fun n names => ?_⟩
  rw [valueBelow?_cons, hchildren, child?_addChild, Lexical.last?_append]
  by_cases hn : n = name
  · rw [if_pos ⟨rfl, hn, Nat.le_of_lt h.has⟩, if_pos hn, Option.bind_some, Option.bind_some,
      hvalue.below]
  · rw [if_neg fun hc => hn hc.2.1, if_neg hn, ← h.below, valueBelow?_cons]
    cases hc : t.child? node n with
    | none => rfl
    | some c =>
      -- a child that was there before is another one, and nothing hangs below both
      have hhas := h.linked.has_child hc
      have hparent : (t.addChild node name).parent? t.next = (t.addChild node name).parent? c := by
        rw [parent?_addChild, parent?_addChild, if_pos rfl, if_neg (ne_next hhas),
          (h.linked.child node n c hc).1]
      have hapart := Under.disjoint hadded hparent (ne_next hhas).symm .refl
      rw [Option.bind_some, Option.bind_some, hedits.valueBelow? hadded (hadd.has hhas) hapart,
        hadd.valueBelow?_child h.linked hc]

end ScopeTree

namespace Decoding

variable {α β : Type} {P : ScopeTree → Prop} {m : Decode α} {Q : α → ScopeTree → Prop}
  {node : NodeId} {members : List (String × Value)}

open ScopeTree (Bears Registers)

/-- Decoding that succeeds in a tree as required leaves one as promised. -/
def Ensures (P : ScopeTree → Prop) (m : Decode α) (Q : α → ScopeTree → Prop) : Prop :=
  ∀ s a s', P s.scopes → m s = .ok a s' → Q a s'.scopes

namespace Ensures

theorem pure {a : α} (h : ∀ t, P t → Q a t) : Ensures P (pure a) Q := by
  intro s a' s' hs hrun
  cases hrun
  exact h _ hs

theorem fail {e : Error} : Ensures P (throw e : Decode α) Q := by
  intro s a s' hs hrun
  cases hrun

theorem bind {k : α → Decode β} {R : β → ScopeTree → Prop} (hm : Ensures P m Q)
    (hk : ∀ a, Ensures (Q a) (k a) R) : Ensures P (m >>= k) R := by
  intro s b s' hs hrun
  obtain ⟨a, s₁, hfirst, hrest⟩ := bind_eq_ok hrun
  exact hk a s₁ b s' (hm s a s₁ hs hfirst) hrest

theorem position : Ensures P position fun _ => P := by
  intro s a s' hs hrun
  cases hrun
  exact hs

theorem read {f : Cursor → Except Error (α × Cursor)} : Ensures P (read f) fun _ => P := by
  intro s a s' hs hrun
  obtain ⟨next, -, rfl⟩ := read_eq_ok hrun
  exact hs

theorem move {f : Cursor → Except Error Cursor} : Ensures P (move f) fun _ => P := by
  intro s a s' hs hrun
  obtain ⟨next, -, rfl⟩ := move_eq_ok hrun
  exact hs

theorem integer {type : IntegerType} : Ensures P (Decoding.integer type) fun _ => P := by
  unfold Decoding.integer
  split
  · exact read
  · exact read

theorem refer {path : FieldPath} {need : FieldNeed} {select : Value → Option α} :
    Ensures P (refer node path need select) fun _ => P := by
  intro s a s' hs hrun
  obtain ⟨rfl, -⟩ := refer_eq_ok hrun
  exact hs

theorem complete (value : Value) :
    Ensures (Bears node value.members) (complete node value) (Registers node) := by
  intro s a s' hs hrun
  cases hrun
  exact hs.bind

/-- A field that is decoded is one more member. -/
theorem field {name : String} {alignment : Nat} {body : NodeId → Decode Value}
    (hsteps : ∀ child, Steps (fun _ => False) (· = child) (body child))
    (hbody : ∀ child, Ensures (Bears child []) (body child) (Registers child)) :
    Ensures (Bears node members) (field node name alignment body) fun value =>
      Bears node (members ++ [(name, value)]) := by
  refine move.bind fun _ s value s' hs hrun => ?_
  rw [enter_apply] at hrun
  have hvalue := hbody s.scopes.next _ value s' (hs.enter name) hrun
  have hedits := (hsteps s.scopes.next).edits ⟨s.cursor, s.scopes.addChild node name⟩
  rw [hrun, final_ok] at hedits
  exact hs.leave hedits hvalue

/-- What holds of some elements, and goes on to hold with each further one, holds of all. -/
theorem elements_of {I : List Value → ScopeTree → Prop} {decodeElement : String → Decode Value}
    (h : ∀ values, Ensures (I values) (decodeElement (toString values.length)) fun value =>
      I (values ++ [value])) (count : Nat) (decoded : List Value) :
    Ensures (I decoded.reverse) (Decoding.elements decodeElement decoded.length count decoded)
      I := by
  induction count generalizing decoded with
  | zero => exact pure fun _ ht => ht
  | succ count ih =>
    have hnext := h decoded.reverse
    rw [List.length_reverse] at hnext
    refine hnext.bind fun value => ?_
    rw [← List.reverse_cons]
    exact ih (value :: decoded)

/-- Elements are members under their indices. -/
theorem elements {decodeElement : String → Decode Value}
    (h : ∀ members name, Ensures (Bears node members) (decodeElement name) fun value =>
      Bears node (members ++ [(name, value)])) (count : Nat) :
    Ensures (Bears node []) (Decoding.elements decodeElement 0 count []) fun values =>
      Bears node (Value.indexed values) := by
  have hnext (values : List Value) :
      Ensures (Bears node (Value.indexed values)) (decodeElement (toString values.length))
        fun value => Bears node (Value.indexed (values ++ [value])) := by
    simpa only [Value.indexed_append] using h (Value.indexed values) (toString values.length)
  exact elements_of hnext count []

end Ensures

end Decoding

namespace Declaration

open Decoding
open ScopeTree (Bears Registers)

mutual

/-- Names lead to the same below a node, which was empty, as within the value decoded there. -/
theorem ensures_decodeAt : (type : Declaration) → (node : NodeId) →
    Ensures (Bears node []) (type.decodeAt node) (Registers node)
  | integer type, _ =>
    Ensures.position.bind fun offset => Ensures.integer.bind fun value =>
      .complete (.integer type offset value)
  | float type, _ =>
    Ensures.position.bind fun offset => Ensures.read.bind fun value =>
      .complete (.float type offset value)
  | enumeration type, _ =>
    Ensures.position.bind fun offset => Ensures.integer.bind fun value =>
      .complete (.enumeration type offset value)
  | string encoding, _ =>
    Ensures.position.bind fun offset => Ensures.read.bind fun text =>
      .complete (.string encoding offset text)
  | struct minAlignment types, node =>
    Ensures.position.bind fun offset => (ensures_decodeFields types node []).bind fun fields =>
      .complete (.struct minAlignment types offset node fields)
  | array length element, node =>
    Ensures.position.bind fun offset =>
      (Ensures.elements (fun _ _ => .field (steps_decodeAt element) (ensures_decodeAt element))
        length).bind fun values => .complete (.array length element offset node values)
  | sequence length element, node =>
    Ensures.position.bind fun offset => Ensures.refer.bind fun count =>
      (Ensures.elements (fun _ _ => .field (steps_decodeAt element) (ensures_decodeAt element))
        count).bind fun values => .complete (.sequence length element offset node values)
  | variant tag options, node =>
    Ensures.position.bind fun offset => Ensures.refer.bind fun selected =>
      match selected with
      | none => .fail
      | some label => (ensures_decodeOption options node tag label).bind fun current =>
          .complete (.variant tag options offset node label current)

theorem ensures_decodeFields : (types : List (String × Declaration)) → (node : NodeId) →
    (members : List (String × Value)) →
    Ensures (Bears node members) (decodeFields types node) fun fields =>
      Bears node (members ++ fields)
  | [], _, members => .pure fun _ ht => by rwa [List.append_nil]
  | (name, type) :: rest, node, members =>
    (Ensures.field (steps_decodeAt type) (ensures_decodeAt type)).bind fun value =>
      (ensures_decodeFields rest node (members ++ [(name, value)])).bind fun _ =>
        .pure fun _ ht => by rwa [List.append_assoc] at ht

theorem ensures_decodeOption : (options : List (String × Declaration)) → (node : NodeId) →
    (tag : FieldPath) → (label : String) →
    Ensures (Bears node []) (decodeOption options node tag label) fun value =>
      Bears node [(label, value)]
  | [], _, _, _ => .fail
  | (name, type) :: rest, node, tag, label => by
    rw [decodeOption]
    split
    · exact .field (steps_decodeAt type) (ensures_decodeAt type)
    · exact ensures_decodeOption rest node tag label

end

/-- Names lead to the same below the root of a dynamic scope as within its content, whatever the
scope held before. -/
theorem ensures_decodeRoot (type : Declaration) (scope : DynamicScope) :
    Ensures ScopeTree.Linked (type.decodeRoot scope) (Registers (ScopeTree.root scope)) := by
  refine Ensures.move.bind fun _ => Ensures.bind (Q := fun _ => Bears (ScopeTree.root scope) []) ?_
    fun _ => ensures_decodeAt type (ScopeTree.root scope)
  intro s a s' hs hrun
  cases hrun
  refine ScopeTree.bears_of_vacant (hs.clear _) ?_ fun n => ?_
  · exact (hs.clear _).has_root scope
  · rw [ScopeTree.child?_clear, if_pos rfl]

end Declaration

end CommonTrace
