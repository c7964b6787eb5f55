import CommonTrace.Packet.Indexing
import CommonTrace.Proofs.Decoding.Effects

/-!
# Decoding a preamble

A preamble is decoded below the roots of the packet header and of the packet context,
which are vacant in the tree that holds the constants of the environment alone. So the
tree can be restored after any preamble, and no preamble sees anything of another. A
preamble fails in no way but those that tell that data is no packet.
-/
namespace CommonTrace

open Decoding

variable {α : Type} {fails : Error → Prop} {own : NodeId → Prop}

namespace Metadata

variable (metadata : Metadata)

theorem edits_bindConstant (t : ScopeTree) (parent : NodeId) (name : String) (value : Value) :
    t.Edits (· = parent) (bindConstant t parent name value) := by
  refine ScopeTree.Edits.enter (by rfl) name ?_
  exact .bind .refl (.inl (by rfl)) value

/-- The constants of the environment are bound below its root. -/
theorem edits_bindEnvironment (t : ScopeTree) :
    t.Edits (· = ScopeTree.root .environment) (metadata.bindEnvironment t) := by
  unfold bindEnvironment
  dsimp only
  have hedits : t.Edits (· = ScopeTree.root .environment) (t.clear (ScopeTree.root .environment)) :=
    .clear .refl (.inl rfl)
  generalize t.clear (ScopeTree.root .environment) = start at hedits ⊢
  generalize metadata.environment.toList = constants
  induction constants generalizing start with
  | nil => exact hedits
  | cons constant rest ih =>
    rw [List.foldl_cons]
    exact ih _ (hedits.trans (edits_bindConstant ..) fun i hi => .inl hi)

theorem linked_bindEnvironment {t : ScopeTree} (ht : t.Linked) :
    (metadata.bindEnvironment t).Linked :=
  (metadata.edits_bindEnvironment t).linked ht fun _ hi => hi ▸ ht.has_root .environment

theorem linked_baseScopes : metadata.baseScopes.Linked := metadata.linked_bindEnvironment .empty

theorem has_root_baseScopes (scope : DynamicScope) :
    metadata.baseScopes.Has (ScopeTree.root scope) :=
  metadata.linked_baseScopes.has_root scope

theorem vacant_empty (scope : DynamicScope) : ScopeTree.empty.Vacant (ScopeTree.root scope) := by
  constructor
  · cases scope <;> rfl
  · intro name
    cases scope <;>
      simp [ScopeTree.child?, ScopeTree.node?, ScopeTree.empty, DynamicScope.all, ScopeTree.root,
        DynamicScope.index]

/-- The environment is the only scope with content before the first packet. -/
theorem vacant_baseScopes {scope : DynamicScope} (h : scope ≠ .environment) :
    metadata.baseScopes.Vacant (ScopeTree.root scope) := by
  obtain ⟨hvalue, -, hchild⟩ := (metadata.edits_bindEnvironment .empty).frame
    (ScopeTree.Linked.empty.has_root scope) fun heq => h (ScopeTree.root_injective heq)
  obtain ⟨hnone, hnone'⟩ := vacant_empty scope
  exact ⟨hvalue.trans hnone, fun n => (hchild n).trans (hnone' n)⟩

/-- A tree that holds the constants of the environment, whatever was decoded into it and
has not yet been dropped. -/
def Restores (t : ScopeTree) : Prop :=
  ScopeTree.Restores metadata.baseScopes.checkpoint metadata.baseScopes t

theorem restores_baseScopes : metadata.Restores metadata.baseScopes :=
  ScopeTree.Restores.now metadata.linked_baseScopes

end Metadata

namespace Preamble

variable {s s' : Decoding}

theorem lift_eq_ok {r : Except Error α} {a : α} (h : (lift r : Decode α) s = .ok a s') :
    r = .ok a ∧ s = s' := by
  cases r with
  | error e => cases h
  | ok a' =>
    cases h
    exact ⟨rfl, rfl⟩

/-- A section that has a type is the content of its scope. -/
theorem section?_eq_ok {type : StructType} {scope : DynamicScope} {found : Option Value}
    (h : section? (some type) scope s = .ok found s') :
    ∃ value, found = some value ∧ type.declaration.decodeRoot scope s = .ok value s' := by
  rw [section?, map_eq_pure_bind] at h
  obtain ⟨value, s₁, hvalue, hpure⟩ := bind_eq_ok h
  cases hpure
  exact ⟨value, rfl, hvalue⟩

theorem steps_lift {r : Except Error α} (h : ∀ e, r = .error e → fails e) :
    Steps fails own (lift r : Decode α) := by
  cases r with
  | ok a => exact .pure a
  | error e => exact .fail (.inr (h e rfl))

theorem steps_section? (type : Option StructType) {scope : DynamicScope}
    (h : own (ScopeTree.root scope)) : Steps fails own (section? type scope) := by
  cases type with
  | none => exact .pure none
  | some type => exact (Declaration.steps_decodeRoot type.declaration scope h).map some

/-- The nodes below which a preamble is decoded. -/
def roots (i : NodeId) : Prop :=
  i = ScopeTree.root .packetHeader ∨ i = ScopeTree.root .packetContext

theorem isTrailing_checkMagic {offset : Nat} {header : Value} {e : Error}
    (h : checkMagic offset header = .error e) : e.isTrailing := by
  unfold checkMagic at h
  split at h
  · split at h
    · cases h
    · cases h
      rfl
  · cases h

theorem isTrailing_checkUuid {metadata : Metadata} {offset : Nat} {header : Value} {e : Error}
    (h : checkUuid metadata offset header = .error e) : e.isTrailing := by
  unfold checkUuid at h
  split at h
  · split at h
    · cases h
    · cases h
      rfl
  · cases h

theorem isTrailing_checkHeader {metadata : Metadata} {offset : Nat} {header : Value} {e : Error}
    (h : checkHeader metadata offset header = .error e) : e.isTrailing := by
  unfold checkHeader at h
  cases hmagic : checkMagic offset header with
  | error e' =>
    rw [hmagic] at h
    cases h
    exact isTrailing_checkMagic hmagic
  | ok _ =>
    cases huuid : checkUuid metadata offset header with
    | error e' =>
      rw [hmagic, huuid] at h
      cases h
      exact isTrailing_checkUuid huuid
    | ok _ =>
      rw [hmagic, huuid] at h
      cases h

theorem isTrailing_classOf {metadata : Metadata} {id : Option Nat} {e : Error}
    (h : classOf metadata id = .error e) : e.isTrailing := by
  have hstream {id : Nat} (h : metadata.stream id = .error e) : e.isTrailing := by
    unfold Metadata.stream at h
    split at h
    · cases h
    · cases h
      rfl
  cases id with
  | some id => exact hstream h
  | none =>
    unfold classOf Metadata.singleStream at h
    dsimp only at h
    split at h
    · cases h
    · exact hstream h

theorem steps_decodeContext (metadata : Metadata) (id : Option Nat) :
    Steps (fun e => e.isTrailing) roots (decodeContext metadata id) := by
  refine (steps_lift fun e he => isTrailing_classOf he).bind fun streamClass => ?_
  refine (steps_section? _ (.inr rfl)).bind fun context => ?_
  exact Steps.position.bind fun payloadStart => .pure _

theorem steps_decode (metadata : Metadata) (offset : Nat) :
    Steps (fun e => e.isTrailing) roots (decode metadata offset) := by
  refine (steps_section? _ (.inl rfl)).bind fun header => ?_
  cases header with
  | none => exact steps_decodeContext metadata none
  | some header =>
    exact (steps_lift fun e he => isTrailing_checkHeader he).bind (steps_decodeContext metadata)

theorem isTrailing_of_isDecoding {e : Error} (h : e.IsDecoding) : e.isTrailing := by
  cases e <;> first | rfl | exact h.elim

/-- Whatever a file holds, decoding a preamble fails only as data does that is no packet. -/
theorem isTrailing_decode {metadata : Metadata} {offset : Nat} {s s' : Decoding} {e : Error}
    (h : decode metadata offset s = .error e s') : e.isTrailing := by
  rcases (steps_decode metadata offset).error h with he | he
  · exact isTrailing_of_isDecoding he
  · exact he

/-- The nodes below which a preamble is decoded are there and vacant before any packet. -/
theorem vacant_roots {metadata : Metadata} {kept : ScopeTree}
    (h : kept.Alike metadata.baseScopes) (i : NodeId) (hi : roots i) :
    kept.Has i ∧ kept.Vacant i := by
  have hroot (scope : DynamicScope) (hne : scope ≠ .environment) :
      kept.Has (ScopeTree.root scope) ∧ kept.Vacant (ScopeTree.root scope) :=
    ⟨(h.has _).2 (metadata.has_root_baseScopes scope),
      h.symm.vacant (metadata.vacant_baseScopes hne)⟩
  rcases hi with rfl | rfl
  · exact hroot .packetHeader (by decide)
  · exact hroot .packetContext (by decide)

/-- A tree stays restorable to the state before any packet. -/
theorem restores_decode {metadata : Metadata} (offset : Nat) (s : Decoding)
    {point : ScopeCheckpoint} {kept : ScopeTree} (hkept : kept.Alike metadata.baseScopes)
    (h : ScopeTree.Restores point kept s.scopes) :
    ScopeTree.Restores point kept (final (decode metadata offset s)).scopes :=
  h.edits ((steps_decode metadata offset).edits s) (vacant_roots hkept)

end Preamble

end CommonTrace
