import CommonTrace.Proofs.Decoding.Effects
import CommonTrace.Proofs.Lexical.Mirroring

/-!
# Decoding in a tree of scopes is lexical

Decoding that registers what it decodes in a tree of scopes and decoding with lexical scopes
go on in step: where the tree shows what is known so far, both fail in the same way, or both
succeed with the same value at the same cursor, and the tree shows what is known then. This
is shown for each step of decoding and put together along the type that is decoded.
-/
namespace CommonTrace

/-- What a path needs of a value does not depend on where its parts are registered. -/
theorem Value.unsigned?_datum (value : Value) : value.datum.unsigned? = value.unsigned? := by
  cases value <;> rfl

theorem Value.enumLabel?_datum (value : Value) : value.datum.enumLabel? = value.enumLabel? := by
  cases value <;> rfl

namespace Lexical

open Decoding

variable {α β γ δ : Type} {P Q : ScopeTree → Prop} {m : Decode α} {r : Reading β}

/-- From trees with `P` on, decoding in a tree of scopes goes in step with decoding without:
`Q` holds of their results and of the tree then. -/
def InStep (P : ScopeTree → Prop) (m : Decode α) (r : Reading β)
    (Q : α → β → ScopeTree → Prop) : Prop :=
  ∀ s, P s.scopes →
    match m s with
    | .ok a s' => ∃ b, r s.cursor = .ok (b, s'.cursor) ∧ Q a b s'.scopes
    | .error e _ => r s.cursor = .error e

/-- Results that are the same, in trees with `P`. -/
def Same (P : ScopeTree → Prop) (a a' : α) (t : ScopeTree) : Prop := a' = a ∧ P t

namespace InStep

theorem pure {a : α} {b : β} {R : α → β → ScopeTree → Prop} (h : ∀ t, P t → R a b t) :
    InStep P (pure a) (Pure.pure b) R :=
  fun s hs => ⟨b, rfl, h s.scopes hs⟩

theorem fail {R : α → β → ScopeTree → Prop} (e : Error) :
    InStep P (throw e : Decode α) (throw e : Reading β) R :=
  fun _ _ => rfl

theorem bind {R : α → β → ScopeTree → Prop} {S : γ → δ → ScopeTree → Prop} {k : α → Decode γ}
    {l : β → Reading δ} (h : InStep P m r R) (hk : ∀ a b, InStep (R a b) (k a) (l b) S) :
    InStep P (m >>= k) (r >>= l) S := by
  intro s hs
  have hfirst := h s hs
  have hl : (r >>= l) s.cursor = (r s.cursor).bind fun x => l x.1 x.2 := rfl
  rw [bind_apply, hl]
  cases hrun : m s with
  | error e s' =>
    rw [hrun] at hfirst
    have hr : r s.cursor = .error e := hfirst
    rw [hr]
    rfl
  | ok a s' =>
    rw [hrun] at hfirst
    obtain ⟨b, hr, hb⟩ := hfirst
    rw [hr]
    exact hk a b s' hb

/-- Going on from the same results. -/
theorem andThen {R : γ → δ → ScopeTree → Prop} {r : Reading α} {k : α → Decode γ}
    {l : α → Reading δ} (h : InStep P m r (Same Q)) (hk : ∀ a, InStep Q (k a) (l a) R) :
    InStep P (m >>= k) (r >>= l) R := by
  refine h.bind fun a a' s hs => ?_
  obtain ⟨rfl, hq⟩ := hs
  exact hk a' s hq

theorem position : InStep P Decoding.position Lexical.position (Same P) :=
  fun s hs => ⟨s.cursor.position, rfl, rfl, hs⟩

theorem read (f : Cursor → Except Error (α × Cursor)) : InStep P (Decoding.read f) f (Same P) := by
  intro s hs
  unfold Decoding.read
  cases f s.cursor with
  | ok result => exact ⟨result.1, rfl, rfl, hs⟩
  | error e => rfl

theorem align (alignment : Nat) :
    InStep P (move (·.align alignment)) (Lexical.align alignment) (Same P) := by
  intro s hs
  unfold move Lexical.align
  dsimp only
  cases s.cursor.align alignment with
  | ok next => exact ⟨(), rfl, rfl, hs⟩
  | error e => rfl

theorem integer (type : IntegerType) :
    InStep P (Decoding.integer type) (Lexical.integer type) (Same P) := by
  unfold Decoding.integer Lexical.integer
  split
  · exact read _
  · exact read _

/-- Returning something else in the end, where nothing is done without a tree. -/
theorem thenReturn {R : α → β → ScopeTree → Prop} {S : γ → β → ScopeTree → Prop} {f : α → γ}
    (h : InStep P m r R) (hf : ∀ a b t, R a b t → S (f a) b t) :
    InStep P (m >>= fun a => Pure.pure (f a)) r S := by
  intro s hs
  have hrun := h s hs
  rw [bind_apply]
  cases hm : m s with
  | error e s' =>
    rw [hm] at hrun
    exact hrun
  | ok a s' =>
    rw [hm] at hrun
    obtain ⟨b, hr, hb⟩ := hrun
    exact ⟨b, hr, hf a b s'.scopes hb⟩

end InStep

variable {around : Surroundings} {nodes : List NodeId} {node : NodeId}
  {members : List (String × Datum)} {name : String}

/-- A value is decoded and its node is bound to it. -/
def Completed (around : Surroundings) (nodes : List NodeId) (node : NodeId) (value : Value)
    (datum : Datum) (t : ScopeTree) : Prop :=
  datum = value.datum ∧ Shows around nodes node (.complete value.datum) t

/-- A member is decoded after others. -/
def Gained (around : Surroundings) (nodes : List NodeId) (node : NodeId)
    (members : List (String × Datum)) (name : String) (value : Value) (datum : Datum)
    (t : ScopeTree) : Prop :=
  datum = value.datum ∧ Shows around nodes node (.having (members ++ [(name, datum)])) t

/-- Fields are decoded after others, which come first in what is known. -/
def Filled (around : Surroundings) (nodes : List NodeId) (node : NodeId)
    (members : List (String × Datum)) (fields : List (String × Value))
    (data : List (String × Datum)) (t : ScopeTree) : Prop :=
  data = members ++ Value.fieldData fields ∧ Shows around nodes node (.having data) t

namespace InStep

theorem refer {select : Value → Option α} {select' : Datum → Option α}
    (hselect : ∀ value, select' value.datum = select value) (path : FieldPath) (need : FieldNeed) :
    InStep (Shows around nodes node (.having [])) (Decoding.refer node path need select)
      (Lexical.refer around path need select') (Same (Shows around nodes node (.having []))) := by
  intro s hs
  unfold Decoding.refer Lexical.refer
  rw [← hs.lookupTokens?, Option.bind_map, Function.comp_def, funext hselect]
  cases (s.scopes.lookupTokens? node path.tokens).bind select with
  | some a => exact ⟨a, rfl, rfl, hs⟩
  | none => rfl

theorem complete {value : Value} {datum : Datum}
    (h : ∀ t, P t → datum = value.datum ∧
      Shows around nodes node (.having datum.members) t) :
    InStep P (Decoding.complete node value) (Pure.pure datum) (Completed around nodes node) := by
  intro s hs
  obtain ⟨rfl, hshows⟩ := h s.scopes hs
  exact ⟨value.datum, rfl, rfl, hshows.complete⟩

theorem field (alignment : Nat) {body : NodeId → Decode Value} {body' : Reading Datum}
    (hbody : ∀ child, InStep (Shows (around.within members name) (node :: nodes) child (.having []))
      (body child) body' (Completed (around.within members name) (node :: nodes) child)) :
    InStep (Shows around nodes node (.having members)) (Decoding.field node name alignment body)
      (member alignment body') (Gained around nodes node members name) := by
  refine (align alignment).andThen fun _ s hs => ?_
  have hrun := hbody s.scopes.next ⟨s.cursor, s.scopes.addChild node name⟩ (hs.enter name)
  rw [enter_apply]
  cases hresult : body s.scopes.next ⟨s.cursor, s.scopes.addChild node name⟩ with
  | error e s' =>
    rw [hresult] at hrun
    exact hrun
  | ok value s' =>
    rw [hresult] at hrun
    obtain ⟨datum, hread, rfl, hshows⟩ := hrun
    exact ⟨value.datum, hread, rfl, hshows.leave⟩

/-- The elements decoded so far are those known, under their indices. -/
theorem elements {decodeElement : String → Decode Value}
    {decodeElement' : List Datum → Reading Datum}
    (h : ∀ decoded, InStep (Shows around nodes node (.having (Datum.indexed decoded)))
      (decodeElement (toString decoded.length)) (decodeElement' decoded)
      (Gained around nodes node (Datum.indexed decoded) (toString decoded.length)))
    (count : Nat) (decoded : List Value) :
    InStep (Shows around nodes node (.having (Datum.indexed (Value.elementData decoded.reverse))))
      (Decoding.elements decodeElement decoded.length count decoded)
      (Lexical.elements decodeElement' count (Value.elementData decoded.reverse))
      fun values data t => data = Value.elementData values ∧
        Shows around nodes node (.having (Datum.indexed data)) t := by
  induction count generalizing decoded with
  | zero => exact .pure fun t ht => ⟨rfl, ht⟩
  | succ count ih =>
    -- the index of the next element is the number of those decoded
    have hlength : (Value.elementData decoded.reverse).length = decoded.length := by
      rw [Value.elementData_eq_map, List.length_map, List.length_reverse]
    have hstep := h (Value.elementData decoded.reverse)
    rw [hlength] at hstep
    refine hstep.bind fun value datum s hs => ?_
    obtain ⟨rfl, hshows⟩ := hs
    have hnext := ih (value :: decoded)
    rw [List.reverse_cons, Value.elementData_append] at hnext
    refine hnext s ?_
    rwa [Datum.indexed_append, hlength]

end InStep

-- By recursion on the type. A node is entered with nothing known of its value, so the members
-- known when a composite is bound are those decoded since.
mutual

/-- Decoding a value under a new node goes in step with decoding it in its surroundings. -/
theorem inStep_decodeAt : (type : Declaration) → (around : Surroundings) →
    (nodes : List NodeId) → (node : NodeId) →
    InStep (Shows around nodes node (.having [])) (type.decodeAt node) (decodeAt type around)
      (Completed around nodes node)
  | .integer type, _, _, _ =>
    InStep.position.andThen fun _ => (InStep.integer type).andThen fun _ =>
      .complete fun _ h => ⟨rfl, h⟩
  | .float _, _, _, _ =>
    InStep.position.andThen fun _ => (InStep.read _).andThen fun _ =>
      .complete fun _ h => ⟨rfl, h⟩
  | .enumeration type, _, _, _ =>
    InStep.position.andThen fun _ => (InStep.integer type.container).andThen fun _ =>
      .complete fun _ h => ⟨rfl, h⟩
  | .string _, _, _, _ =>
    InStep.position.andThen fun _ => (InStep.read _).andThen fun _ =>
      .complete fun _ h => ⟨rfl, h⟩
  | .struct _ types, around, nodes, node =>
    InStep.position.andThen fun _ => (inStep_decodeFields types around nodes node []).bind
      fun _ _ => .complete fun _ h => ⟨by rw [h.1]; rfl, h.2⟩
  | .array length element, around, nodes, node =>
    InStep.position.andThen fun _ =>
      (InStep.elements (fun _ => .field _ fun child => inStep_decodeAt element _ _ child)
        length []).bind
      fun _ _ => .complete fun _ h => ⟨by rw [h.1]; rfl, h.2⟩
  | .sequence length element, around, nodes, node =>
    InStep.position.andThen fun _ =>
      (InStep.refer Value.unsigned?_datum length .unsignedInteger).andThen fun count =>
        (InStep.elements (fun _ => .field _ fun child => inStep_decodeAt element _ _ child)
          count []).bind
        fun _ _ => .complete fun _ h => ⟨by rw [h.1]; rfl, h.2⟩
  | .variant tag options, around, nodes, node =>
    InStep.position.andThen fun _ =>
      (InStep.refer Value.enumLabel?_datum tag .enumeration).andThen fun selected =>
        match selected with
        | none => .fail _
        | some label =>
          (inStep_decodeOption options around nodes node tag label).bind
            fun _ _ => .complete fun _ h => ⟨by rw [h.1]; rfl, h.2⟩

/-- Decoding the fields of a struct goes in step, after those that are decoded. -/
theorem inStep_decodeFields : (types : List (String × Declaration)) → (around : Surroundings) →
    (nodes : List NodeId) → (node : NodeId) → (members : List (String × Datum)) →
    InStep (Shows around nodes node (.having members)) (Declaration.decodeFields types node)
      (decodeFields types around members)
      (Filled around nodes node members)
  | [], _, _, _, members => .pure fun t ht => ⟨(List.append_nil members).symm, ht⟩
  | (name, type) :: rest, around, nodes, node, members => by
    rw [Declaration.decodeFields, decodeFields]
    refine (InStep.field _ fun child => inStep_decodeAt type _ _ child).bind
      fun value datum s hs => ?_
    obtain ⟨rfl, hshows⟩ := hs
    have hrest := inStep_decodeFields rest around nodes node (members ++ [(name, value.datum)])
    refine hrest.thenReturn (S := Filled around nodes node members) (fun fields data t h => ?_)
      s hshows
    exact ⟨by rw [h.1, Value.fieldData, List.append_assoc, List.singleton_append], h.2⟩

/-- Decoding the selected alternative of a variant goes in step. -/
theorem inStep_decodeOption : (options : List (String × Declaration)) → (around : Surroundings) →
    (nodes : List NodeId) → (node : NodeId) → (tag : FieldPath) → (label : String) →
    InStep (Shows around nodes node (.having [])) (Declaration.decodeOption options node tag label)
      (decodeOption options around tag label) (Gained around nodes node [] label)
  | [], _, _, _, _, _ => .fail _
  | (name, type) :: rest, around, nodes, node, tag, label => by
    rw [Declaration.decodeOption, decodeOption]
    split
    · exact .field _ fun child => inStep_decodeAt type _ _ child
    · exact inStep_decodeOption rest around nodes node tag label

end

end Lexical

end CommonTrace
