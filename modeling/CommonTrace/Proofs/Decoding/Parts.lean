import CommonTrace.Proofs.Decoding.Registering
import CommonTrace.Proofs.Scope.Paths
import Mathlib.Data.List.Nodup
import Std.Data.String.ToNat

/-!
# The parts of a decoded value

A value has parts: itself, its members, their members and so on, each under the names that lead to
it. No two members of a part share a name if the type is well formed, since fields have different
names, elements are numbered, and a variant has one member. So the tree of scopes that a value is
decoded into has each part where its names lead, and no other bound node can be reached. A part that
is made of others names the node where it is found.
-/
namespace CommonTrace

theorem Lexical.last?_eq_some {α : Type} {name : String} {a : α} {things : List (String × α)}
    (h : (things.map Prod.fst).Nodup) : last? name things = some a ↔ (name, a) ∈ things := by
  rw [last?, List.lookup_eq_some_iff]
  constructor
  · rintro ⟨before, after, hsplit, -⟩
    rw [← List.mem_reverse, hsplit]
    simp
  · intro hmem
    obtain ⟨before, after, hsplit⟩ := List.append_of_mem (List.mem_reverse.2 hmem)
    refine ⟨before, after, hsplit, fun thing hthing => bne_iff_ne.2 fun heq => ?_⟩
    have hnodup := List.nodup_reverse.2 h
    rw [← List.map_reverse, hsplit, List.map_append, List.map_cons] at hnodup
    exact (List.nodup_append.1 hnodup).2.2 thing.1 (List.mem_map_of_mem hthing) name
      List.mem_cons_self heq.symm

namespace Value

/-- The parts of a value, under the names that lead to them from member to member. -/
inductive Part : Value → List String → Value → Prop
  | self (v : Value) : Part v [] v
  | member {v m part : Value} {name : String} {names : List String} (hm : (name, m) ∈ v.members)
      (h : Part m names part) : Part v (name :: names) part

/-- No part of a value has two members of the same name. -/
def Distinct (v : Value) : Prop :=
  ∀ names part, v.Part names part → (part.members.map Prod.fst).Nodup

variable {v part : Value} {names : List String}

theorem distinct_of_members (h : (v.members.map Prod.fst).Nodup)
    (hmembers : ∀ member ∈ v.members, member.2.Distinct) : v.Distinct := by
  intro names part hpart
  cases hpart with
  | self => exact h
  | member hm hrest => exact hmembers _ hm _ _ hrest

theorem distinct_of_members_eq_nil (h : v.members = []) : v.Distinct := by
  apply distinct_of_members
  · simp [h]
  · simp [h]

/-- The elements of a value have different names, which are their indices. -/
theorem nodup_indexed (elements : List Value) : ((indexed elements).map Prod.fst).Nodup := by
  have hnames : (indexed elements).map Prod.fst =
      (List.range elements.length).map (toString : Nat → String) := by
    apply List.ext_getElem
    · simp [indexed]
    · simp [indexed]
  rw [hnames]
  exact List.nodup_range.map fun a b h => Nat.repr_inj.1 h

theorem mem_of_mem_indexed {elements : List Value} {member : String × Value}
    (h : member ∈ indexed elements) : member.2 ∈ elements := by
  obtain ⟨index, hindex, rfl⟩ := List.mem_mapIdx.1 h
  exact List.getElem_mem hindex

/-- In a value without repetitions of names, names lead to the part that is found from member to
member. -/
theorem part_iff_below? (h : v.Distinct) : v.Part names part ↔ v.below? names = some part := by
  induction names generalizing v with
  | nil =>
    rw [below?_nil, Option.some_inj]
    constructor
    · rintro ⟨⟩
      rfl
    · rintro rfl
      exact .self v
  | cons name names ih =>
    have hnodup := h [] v (.self v)
    rw [below?_cons, Option.bind_eq_some_iff]
    constructor
    · intro hpart
      cases hpart with
      | @member _ m _ _ _ hm hrest =>
        refine ⟨m, (Lexical.last?_eq_some hnodup).2 hm, (ih ?_).1 hrest⟩
        exact fun ns p hp => h (name :: ns) p (.member hm hp)
    · rintro ⟨m, hlast, hbelow⟩
      have hm := (Lexical.last?_eq_some hnodup).1 hlast
      refine .member hm ((ih ?_).2 hbelow)
      exact fun ns p hp => h (name :: ns) p (.member hm hp)

end Value

/-- Whether a value that is made of others names a node as its own. -/
def Value.At (v : Value) (node : NodeId) : Prop := ∀ k, v.node? = some k → k = node

namespace ScopeTree

/-- Among some nodes, each value that is made of others names the node that is bound to it. -/
def Placed (among : NodeId → Prop) (t : ScopeTree) : Prop :=
  ∀ i, among i → ∀ v, t.value? i = some v → v.At i

variable {among : NodeId → Prop} {t : ScopeTree} {node : NodeId} {value : Value}

theorem Placed.addChild (h : t.Placed among) (parent : NodeId) (name : String) :
    (t.addChild parent name).Placed among := by
  intro i hi v hv
  rw [value?_addChild] at hv
  exact h i hi v hv

theorem Placed.bind (h : t.Placed among) (hvalue : value.At node) :
    (t.bind node value).Placed among := by
  intro i hi v hv
  rw [value?_bind] at hv
  split at hv
  next hnode =>
    cases hv
    exact hnode.1 ▸ hvalue
  · exact h i hi v hv

end ScopeTree

namespace Decoding.Ensures

open ScopeTree (Placed)

variable {α : Type} {P : ScopeTree → Prop} {Q : Value → ScopeTree → Prop} {m : Decode α}
  {R : α → ScopeTree → Prop} {among : NodeId → Prop} {node : NodeId} {value : Value}

/-- What is known of values that were decoded before does not depend on the tree. -/
theorem given {F : Prop} (h : F → Ensures P m R) : Ensures (fun t => F ∧ P t) m R := by
  intro s a s' hs hrun
  exact h hs.1 s a s' hs.2 hrun

theorem complete_placed (hdistinct : value.Distinct) (hvalue : value.At node) :
    Ensures (Placed among) (Decoding.complete node value) fun v t =>
      v.Distinct ∧ t.Placed among := by
  intro s a s' hs hrun
  cases hrun
  exact ⟨hdistinct, hs.bind hvalue⟩

theorem field_placed {name : String} {alignment : Nat} {body : NodeId → Decode Value}
    (hbody : ∀ child, Ensures (Placed among) (body child) Q) :
    Ensures (Placed among) (Decoding.field node name alignment body) Q := by
  refine move.bind fun _ s value s' hs hrun => ?_
  rw [enter_apply] at hrun
  exact hbody s.scopes.next _ value s' (hs.addChild node name) hrun

/-- What holds of each element holds of all of them. -/
theorem elements_all {F : Value → Prop} {decodeElement : String → Decode Value}
    (h : ∀ name, Ensures P (decodeElement name) fun value t => F value ∧ P t) (count : Nat) :
    Ensures P (Decoding.elements decodeElement 0 count []) fun values t =>
      (∀ value ∈ values, F value) ∧ P t := by
  have hnext (values : List Value) :
      Ensures (fun t => (∀ value ∈ values, F value) ∧ P t) (decodeElement (toString values.length))
        fun value t => (∀ v ∈ values ++ [value], F v) ∧ P t := by
    refine given fun hvalues s value s' hs hrun => ?_
    obtain ⟨hvalue, ht⟩ := h _ s value s' hs hrun
    refine ⟨fun v hv => ?_, ht⟩
    rcases List.mem_append.1 hv with hv | hv
    · exact hvalues v hv
    · exact List.mem_singleton.1 hv ▸ hvalue
  intro s values s' hs hrun
  exact elements_of hnext count [] s values s' ⟨by simp, hs⟩ hrun

end Decoding.Ensures

namespace Declaration

open Decoding
open ScopeTree (Placed)

variable {among : NodeId → Prop}

mutual

/-- A value of a well-formed type has no parts with members of the same name, and its parts name
the nodes that are bound to them. -/
theorem ensures_placed : (type : Declaration) → (node : NodeId) → type.WellFormed →
    Ensures (Placed among) (type.decodeAt node) fun value t => value.Distinct ∧ t.Placed among
  | integer type, _, _ =>
    Ensures.position.bind fun _ => Ensures.integer.bind fun _ =>
      .complete_placed (Value.distinct_of_members_eq_nil rfl) nofun
  | float type, _, _ =>
    Ensures.position.bind fun _ => Ensures.read.bind fun _ =>
      .complete_placed (Value.distinct_of_members_eq_nil rfl) nofun
  | enumeration type, _, _ =>
    Ensures.position.bind fun _ => Ensures.integer.bind fun _ =>
      .complete_placed (Value.distinct_of_members_eq_nil rfl) nofun
  | string encoding, _, _ =>
    Ensures.position.bind fun _ => Ensures.read.bind fun _ =>
      .complete_placed (Value.distinct_of_members_eq_nil rfl) nofun
  | struct minAlignment types, node, h =>
    Ensures.position.bind fun _ => (ensures_placed_fields types node h.2.2).bind fun fields =>
      .given fun hfields => .complete_placed
        (Value.distinct_of_members (by simpa [Value.members, hfields.1] using h.1) hfields.2)
        fun k hk => (Option.some.inj hk).symm
  | array length element, node, h =>
    Ensures.position.bind fun _ =>
      (Ensures.elements_all (fun _ => .field_placed fun child => ensures_placed element child h)
        length).bind fun values => .given fun hvalues => .complete_placed
          (Value.distinct_of_members (Value.nodup_indexed values) fun member hmember =>
            hvalues _ (Value.mem_of_mem_indexed hmember))
          fun k hk => (Option.some.inj hk).symm
  | sequence length element, node, h =>
    Ensures.position.bind fun _ => Ensures.refer.bind fun count =>
      (Ensures.elements_all (fun _ => .field_placed fun child => ensures_placed element child h)
        count).bind fun values => .given fun hvalues => .complete_placed
          (Value.distinct_of_members (Value.nodup_indexed values) fun member hmember =>
            hvalues _ (Value.mem_of_mem_indexed hmember))
          fun k hk => (Option.some.inj hk).symm
  | variant tag options, node, h =>
    Ensures.position.bind fun _ => Ensures.refer.bind fun selected =>
      match selected with
      | none => .fail
      | some label => (ensures_placed_option options node tag label h.2).bind fun current =>
          .given fun hcurrent => .complete_placed
            (Value.distinct_of_members (by simp [Value.members])
              (by simpa [Value.members] using hcurrent))
            fun k hk => (Option.some.inj hk).symm

theorem ensures_placed_fields : (types : List (String × Declaration)) → (node : NodeId) →
    AllWellFormed types →
    Ensures (Placed among) (decodeFields types node) fun fields t =>
      (fields.map Prod.fst = types.map Prod.fst ∧ ∀ field ∈ fields, field.2.Distinct) ∧
        t.Placed among
  | [], _, _ => .pure fun _ ht => ⟨⟨rfl, by simp⟩, ht⟩
  | (name, type) :: rest, node, h =>
    (Ensures.field_placed fun child => ensures_placed type child h.1).bind fun value =>
      .given fun hvalue => (ensures_placed_fields rest node h.2).bind fun fields =>
        .given fun hfields => .pure fun _ ht =>
          ⟨⟨by simp [hfields.1], by simpa using ⟨hvalue, fun a b => hfields.2 (a, b)⟩⟩, ht⟩

theorem ensures_placed_option : (options : List (String × Declaration)) → (node : NodeId) →
    (tag : FieldPath) → (label : String) → AllWellFormed options →
    Ensures (Placed among) (decodeOption options node tag label) fun value t =>
      value.Distinct ∧ t.Placed among
  | [], _, _, _, _ => .fail
  | (name, type) :: rest, node, tag, label, h => by
    rw [decodeOption]
    split
    · exact .field_placed fun child => ensures_placed type child h.1
    · exact ensures_placed_option rest node tag label h.2

end

variable {type : Declaration} {scope : DynamicScope} {s s' : Decoding} {value : Value}

/-- The content of a scope is decoded at its root, which has been cleared. -/
theorem decodeRoot_eq_ok (h : type.decodeRoot scope s = .ok value s') :
    ∃ next, s.cursor.align type.alignment = .ok next ∧
      type.decodeAt (ScopeTree.root scope) ⟨next, s.scopes.clear (ScopeTree.root scope)⟩ =
        .ok value s' := by
  obtain ⟨_, s₁, hmove, hrest⟩ := bind_eq_ok h
  obtain ⟨next, halign, rfl⟩ := move_eq_ok hmove
  exact ⟨next, halign, hrest⟩

/-- What can be reached from the root of a scope has been decoded with its content. -/
theorem among_of_leads (hs : s.scopes.Linked) (h : type.decodeRoot scope s = .ok value s')
    {i j : NodeId} {names : List String}
    (hi : i = ScopeTree.root scope ∨ s.scopes.nodes.size ≤ i.index)
    (hleads : s'.scopes.Leads i names j) :
    j = ScopeTree.root scope ∨ s.scopes.nodes.size ≤ j.index := by
  have hlinked := (ensures_decodeRoot type scope s value s' hs h).linked
  obtain ⟨next, -, hrun⟩ := decodeRoot_eq_ok h
  have hedits := type.edits_decodeAt (ScopeTree.root scope)
    ⟨next, s.scopes.clear (ScopeTree.root scope)⟩
  rw [hrun, final_ok] at hedits
  induction hleads with
  | here i => exact hi
  | @down i c j name names hc _ ih =>
    refine ih (.inr ?_)
    rcases hi with rfl | hi
    -- the root has lost the children that it had, and other nodes have none before themselves
    · rcases hedits.child?_or_new hc with hold | hnew
      · rw [ScopeTree.child?_clear, if_pos rfl] at hold
        cases hold
      · simpa using hnew
    · exact Nat.le_of_lt (Nat.lt_of_le_of_lt hi (hlinked.lt_child hc))

/-- The content of a scope has no parts with members of the same name, and its parts name the nodes
that are bound to them. -/
theorem placed_decodeRoot (htype : type.WellFormed) (h : type.decodeRoot scope s = .ok value s') :
    value.Distinct ∧
      s'.scopes.Placed fun i => i = ScopeTree.root scope ∨ s.scopes.nodes.size ≤ i.index := by
  obtain ⟨next, -, hrun⟩ := decodeRoot_eq_ok h
  refine ensures_placed type (ScopeTree.root scope) htype _ value s' (fun i hi v hv => ?_) hrun
  dsimp only at hv
  rw [ScopeTree.value?_clear] at hv
  split at hv
  · cases hv
  next hne =>
    rw [ScopeTree.value?_eq_none (Nat.not_lt.2 (hi.resolve_left hne))] at hv
    cases hv

/-- Once the content of a scope is decoded, each of its parts is found from the root by the names
that lead to it, at the node that the part names if it is made of others; no other bound node can
be reached from the root, and all nodes that were there before are as they were. -/
theorem parts_of_decodeRoot (htype : type.WellFormed) (hs : s.scopes.Linked)
    (h : type.decodeRoot scope s = .ok value s') :
    (∀ names part, value.Part names part →
      (∀ start, s'.scopes.lookupTokens? start (scope.tokens ++ names) = some part) ∧
      (∀ first rest, names = first :: rest → first ∉ DynamicScope.reserved →
        s'.scopes.lookupTokens? (ScopeTree.root scope) names = some part) ∧
      ∃ node, s'.scopes.Leads (ScopeTree.root scope) names node ∧
        s'.scopes.value? node = some part ∧ ∀ k, part.node? = some k → k = node) ∧
    (∀ names node part, s'.scopes.Leads (ScopeTree.root scope) names node →
      s'.scopes.value? node = some part → value.Part names part) ∧
    ∀ i, s.scopes.Has i → i ≠ ScopeTree.root scope →
      (∀ name, s'.scopes.child? i name = s.scopes.child? i name) ∧
        s'.scopes.name? i = s.scopes.name? i ∧ s'.scopes.parent? i = s.scopes.parent? i ∧
        s'.scopes.value? i = s.scopes.value? i := by
  have hregisters := ensures_decodeRoot type scope s value s' hs h
  obtain ⟨hdistinct, hplaced⟩ := placed_decodeRoot htype h
  have hfinds {names : List String} {part : Value} :
      value.Part names part ↔ s'.scopes.Finds (ScopeTree.root scope) names part := by
    rw [Value.part_iff_below? hdistinct, ← hregisters.below, ScopeTree.valueBelow?_eq_some]
  refine ⟨fun names part hpart => ⟨fun start => ?_, fun first rest hnames hfirst => ?_, ?_⟩,
    fun names node part hleads hvalue => hfinds.2 ⟨node, hleads, hvalue⟩, fun i hi hne => ?_⟩
  · rw [ScopeTree.lookupTokens?_append, ScopeTree.valueBelow?_eq_some]
    exact hfinds.1 hpart
  · subst hnames
    rw [ScopeTree.lookupTokens?, if_neg hfirst, ScopeTree.relative?_eq_some hregisters.linked,
      ScopeTree.nearest_of_finds (hfinds.1 hpart)]
  · obtain ⟨node, hleads, hvalue⟩ := hfinds.1 hpart
    exact ⟨node, hleads, hvalue, hplaced node (among_of_leads hs h (.inl rfl) hleads) part hvalue⟩
  · have hedits := edits_of_decodeRoot h
    obtain ⟨hvalue, hparent, hchild⟩ := hedits.frame hi hne
    exact ⟨hchild, hedits.name? hi, hparent, hvalue⟩

/-- What decoding yields, if it succeeds. -/
def decoded? : EStateM.Result Error Decoding Value → Option Value
  | .ok value _ => some value
  | .error _ _ => none

/-- The inner one of two fields of the same name. -/
theorem parts_of_decodeRoot_count :
    ∃ value s' part, Lexical.countType.WellFormed ∧ Lexical.countTrace.baseScopes.Linked ∧
      Lexical.countType.decodeRoot .eventFields
        ⟨.ofBytes Lexical.countBytes, Lexical.countTrace.baseScopes⟩ = .ok value s' ∧
      value.Part ["body", "count"] part ∧ part.integer? = some 2 ∧
      s'.scopes.lookupTokens? (ScopeTree.root .environment) ["event", "fields", "body", "count"] =
        some part := by
  have htype : Lexical.countType.WellFormed := by
    simp [Lexical.countType, WellFormed, AllWellFormed]
  have hs := Lexical.countTrace.linked_baseScopes
  have hcount : ((decoded? (Lexical.countType.decodeRoot .eventFields
      ⟨.ofBytes Lexical.countBytes, Lexical.countTrace.baseScopes⟩)).bind
        (·.below? ["body", "count"])).bind Value.integer? = some 2 := by
    decide +kernel
  cases hrun : Lexical.countType.decodeRoot .eventFields
      ⟨.ofBytes Lexical.countBytes, Lexical.countTrace.baseScopes⟩ with
  | error e s' =>
    rw [hrun] at hcount
    cases hcount
  | ok value s' =>
    rw [hrun] at hcount
    obtain ⟨part, hbelow, hinteger⟩ := Option.bind_eq_some_iff.1 hcount
    have hpart := (Value.part_iff_below? (placed_decodeRoot htype hrun).1).2 hbelow
    exact ⟨value, s', part, htype, hs, rfl, hpart, hinteger,
      ((parts_of_decodeRoot htype hs hrun).1 _ part hpart).1 _⟩

end Declaration

end CommonTrace
