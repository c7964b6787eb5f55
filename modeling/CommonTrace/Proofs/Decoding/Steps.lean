import CommonTrace.Decoding
import CommonTrace.Proofs.Bits.Reading
import CommonTrace.Proofs.Scope.Edits

/-!
# The steps of decoding

Decoding is made of few kinds of steps: it reads, refers to what was decoded before, adds
and binds nodes, clears roots, or fails. Everything that decodes is shown to be made of
these once; what all of it has in common then follows by one induction over the steps.
Decoding changes only its own nodes, never goes back in its buffer, and fails for few
reasons. Its result depends only on what can be seen of the tree of scopes and on the part
of the buffer that it passes.
-/
namespace CommonTrace

/-- Whether decoding a value can fail in this way. -/
def Error.IsDecoding : Error → Prop
  | bufferOverrun _ _ _ => True
  | scopeResolution _ _ => True
  | variantSelection _ _ => True
  | _ => False

namespace Decoding

variable {α β : Type} {fails : Error → Prop} {own own' : NodeId → Prop} {m : Decode α}

/-- What is made of steps that change only nodes of `own` and nodes that they add, and that
fail only as decoding a value does or as `fails` tells. -/
inductive Steps (fails : Error → Prop) : (NodeId → Prop) → {α : Type} → Decode α → Prop
  | pure {own : NodeId → Prop} {α : Type} (a : α) : Steps fails own (pure a : Decode α)
  | fail {own : NodeId → Prop} {α : Type} {e : Error} (h : e.IsDecoding ∨ fails e) :
      Steps fails own (throw e : Decode α)
  | position {own : NodeId → Prop} : Steps fails own position
  | read {own : NodeId → Prop} {α : Type} {f : Cursor → Except Error (α × Cursor)}
      (h : Cursor.Reads f) : Steps fails own (read f)
  | refer {own : NodeId → Prop} {α : Type} (node : NodeId) (path : FieldPath) (need : FieldNeed)
      (select : Value → Option α) : Steps fails own (refer node path need select)
  | clear {own : NodeId → Prop} {node : NodeId} (h : own node) :
      Steps fails own (register (·.clear node))
  | assign {own : NodeId → Prop} {node : NodeId} (h : own node) (value : Value) :
      Steps fails own (register (·.bind node value))
  | enter {own : NodeId → Prop} {α : Type} {parent : NodeId} {body : NodeId → Decode α}
      (h : own parent) (name : String) (hbody : ∀ child, Steps fails (· = child) (body child)) :
      Steps fails own (enter parent name >>= body)
  | bind {own : NodeId → Prop} {α β : Type} {m : Decode α} {k : α → Decode β}
      (hm : Steps fails own m) (hk : ∀ a, Steps fails own (k a)) : Steps fails own (m >>= k)

theorem bind_apply {σ : Type} (m : EStateM Error σ α) (k : α → EStateM Error σ β) (s : σ) :
    (m >>= k) s =
      match m s with
      | .ok a s' => k a s'
      | .error e s' => .error e s' := by
  show EStateM.bind m k s = _
  unfold EStateM.bind
  cases m s <;> rfl

theorem bind_eq_ok {σ : Type} {m : EStateM Error σ α} {k : α → EStateM Error σ β} {s s' : σ}
    {b : β} (h : (m >>= k) s = .ok b s') : ∃ a s₁, m s = .ok a s₁ ∧ k a s₁ = .ok b s' := by
  rw [bind_apply] at h
  cases hm : m s with
  | ok a s₁ =>
    rw [hm] at h
    exact ⟨a, s₁, rfl, h⟩
  | error e s₁ =>
    rw [hm] at h
    cases h

theorem move_eq_ok {s s' : Decoding} {f : Cursor → Except Error Cursor} {u : Unit}
    (h : move f s = .ok u s') : ∃ next, f s.cursor = .ok next ∧ s' = ⟨next, s.scopes⟩ := by
  unfold move at h
  split at h
  next next hnext =>
    cases h
    exact ⟨next, hnext, rfl⟩
  · cases h

theorem read_eq_ok {s s' : Decoding} {f : Cursor → Except Error (α × Cursor)} {a : α}
    (h : read f s = .ok a s') :
    ∃ next, f s.cursor = .ok (a, next) ∧ s' = ⟨next, s.scopes⟩ := by
  unfold read at h
  split at h
  next b next hnext =>
    cases h
    exact ⟨next, hnext, rfl⟩
  · cases h

theorem refer_eq_ok {s s' : Decoding} {node : NodeId} {path : FieldPath} {need : FieldNeed}
    {select : Value → Option α} {a : α} (h : refer node path need select s = .ok a s') :
    s' = s ∧ ∃ found, s.scopes.lookupTokens? node path.tokens = some found ∧
      select found = some a := by
  unfold refer at h
  split at h
  next b hfound =>
    cases h
    exact ⟨rfl, Option.bind_eq_some_iff.1 hfound⟩
  · cases h

theorem enter_apply (parent : NodeId) (name : String) (body : NodeId → Decode α) (s : Decoding) :
    (enter parent name >>= body) s =
      body s.scopes.next ⟨s.cursor, s.scopes.addChild parent name⟩ :=
  rfl

namespace Steps

theorem mono (h : Steps fails own m) (hown : ∀ i, own i → own' i) : Steps fails own' m := by
  induction h with
  | pure a => exact .pure a
  | fail he => exact .fail he
  | position => exact .position
  | read hf => exact .read hf
  | refer node path need select => exact .refer node path need select
  | clear hi => exact .clear (hown _ hi)
  | assign hi value => exact .assign (hown _ hi) value
  | enter hp name hbody _ => exact .enter (hown _ hp) name hbody
  | bind _ _ ihm ihk => exact (ihm hown).bind fun a => ihk a hown

theorem map (h : Steps fails own m) (g : α → β) : Steps fails own (g <$> m) := by
  rw [map_eq_pure_bind]
  exact h.bind fun a => .pure (g a)

theorem complete (node : NodeId) (value : Value) :
    Steps fails (· = node) (Decoding.complete node value) :=
  (assign (by rfl) value).bind fun _ => .pure value

theorem align (alignment : Nat) : Steps fails own (move (·.align alignment)) := by
  have hread : move (·.align alignment) =
      Decoding.read fun c => (c.align alignment).map fun next => ((), next) := by
    funext s
    unfold move Decoding.read
    dsimp only
    cases s.cursor.align alignment <;> rfl
  rw [hread]
  exact read (Cursor.Reads.align alignment)

theorem integer (type : IntegerType) : Steps fails own (Decoding.integer type) := by
  unfold Decoding.integer
  split
  · exact read (.readSigned type.size_pos type.size_le type.order)
  · exact read ((Cursor.Reads.readUnsigned type.size_pos type.size_le type.order).map Int.ofNat)

theorem field (parent : NodeId) (name : String) (alignment : Nat) {body : NodeId → Decode Value}
    (hbody : ∀ child, Steps fails (· = child) (body child)) :
    Steps fails (· = parent) (Decoding.field parent name alignment body) :=
  (align alignment).bind fun _ => enter (by rfl) name hbody

theorem elements {decodeElement : String → Decode Value}
    (h : ∀ name, Steps fails own (decodeElement name)) (index count : Nat) (decoded : List Value) :
    Steps fails own (Decoding.elements decodeElement index count decoded) := by
  induction count generalizing index decoded with
  | zero => exact .pure _
  | succ count ih => exact (h _).bind fun value => ih (index + 1) (value :: decoded)

end Steps

end Decoding

namespace Declaration

open Decoding

variable {fails : Error → Prop}

mutual

/-- Decoding a value changes no node but its own. -/
theorem steps_decodeAt : (type : Declaration) → (node : NodeId) →
    Steps fails (· = node) (type.decodeAt node)
  | integer type, node =>
    Steps.position.bind fun _ => (Steps.integer type).bind fun _ => .complete node _
  | float type, node =>
    Steps.position.bind fun _ =>
      (Steps.read (.readFloat type.precision type.order)).bind fun _ => .complete node _
  | enumeration type, node =>
    Steps.position.bind fun _ => (Steps.integer type.container).bind fun _ => .complete node _
  | string _, node =>
    Steps.position.bind fun _ => (Steps.read .readString).bind fun _ => .complete node _
  | struct _ types, node =>
    Steps.position.bind fun _ =>
      (steps_decodeFields types node).bind fun _ => .complete node _
  | array length element, node =>
    Steps.position.bind fun _ =>
      (Steps.elements (fun name => .field node name _ (steps_decodeAt element)) 0 length []).bind
        fun _ => .complete node _
  | sequence length element, node =>
    Steps.position.bind fun _ =>
      (Steps.refer node length _ _).bind fun count =>
        (Steps.elements (fun name => .field node name _ (steps_decodeAt element)) 0 count []).bind
          fun _ => .complete node _
  | variant tag options, node =>
    Steps.position.bind fun _ =>
      (Steps.refer node tag _ _).bind fun selected =>
        match selected with
        | none => .fail (.inl trivial)
        | some label =>
          (steps_decodeOption options node tag label).bind fun _ => .complete node _

theorem steps_decodeFields : (types : List (String × Declaration)) → (node : NodeId) →
    Steps fails (· = node) (decodeFields types node)
  | [], _ => .pure _
  | (name, type) :: rest, node =>
    (Steps.field node name _ (steps_decodeAt type)).bind fun _ =>
      (steps_decodeFields rest node).bind fun _ => .pure _

theorem steps_decodeOption : (options : List (String × Declaration)) → (node : NodeId) →
    (tag : FieldPath) → (label : String) →
    Steps fails (· = node) (decodeOption options node tag label)
  | [], _, _, _ => .fail (.inl trivial)
  | (name, type) :: rest, node, tag, label => by
    rw [decodeOption]
    split
    · exact .field node label _ (steps_decodeAt type)
    · exact steps_decodeOption rest node tag label

end

/-- Decoding a field changes no node but its parent, to which its own node is added. -/
theorem steps_decode (type : Declaration) (parent : NodeId) (name : String) :
    Steps fails (· = parent) (type.decode parent name) :=
  .field parent name type.alignment (steps_decodeAt type)

/-- Decoding the content of a dynamic scope changes no node but its root. -/
theorem steps_decodeRoot {own : NodeId → Prop} (type : Declaration) (scope : DynamicScope)
    (h : own (ScopeTree.root scope)) : Steps fails own (type.decodeRoot scope) := by
  have hown : ∀ i, i = ScopeTree.root scope → own i := by
    rintro i rfl
    exact h
  exact (Steps.align type.alignment).bind fun _ => (Steps.clear h).bind fun _ =>
    (steps_decodeAt type (ScopeTree.root scope)).mono hown

end Declaration

end CommonTrace
