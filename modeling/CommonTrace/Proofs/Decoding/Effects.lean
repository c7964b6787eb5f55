import CommonTrace.Proofs.Decoding.Steps

/-!
# What steps of decoding have in common

The effects of decoding are told from the state that it ends in, be it with a value or
with an error: the tree of scopes has been changed at the nodes given and at new ones
only, and the cursor has not gone back. The same happens in states that look alike, and
with another buffer as long as decoding does not pass the part that is the same.
-/
namespace CommonTrace.Decoding

variable {α β : Type} {fails : Error → Prop} {own : NodeId → Prop} {m : Decode α}
  {s s' t : Decoding} {a : α} {e : Error}

/-- The state that decoding ends in. -/
def final : EStateM.Result Error Decoding α → Decoding
  | .ok _ s => s
  | .error _ s => s

@[simp] theorem final_ok (a : α) (s : Decoding) : final (.ok a s) = s := rfl

@[simp] theorem final_error (e : Error) (s : Decoding) :
    final (.error e s : EStateM.Result Error Decoding α) = s := rfl

/-- A cursor in the same buffer, not before another. -/
def NotBefore (c c' : Cursor) : Prop :=
  c'.bytes = c.bytes ∧ c'.limit = c.limit ∧ c.position ≤ c'.position

theorem NotBefore.refl (c : Cursor) : NotBefore c c := ⟨rfl, rfl, Nat.le_refl _⟩

theorem NotBefore.trans {c c' c'' : Cursor} (h : NotBefore c c') (h' : NotBefore c' c'') :
    NotBefore c c'' :=
  ⟨h'.1.trans h.1, h'.2.1.trans h.2.1, Nat.le_trans h.2.2 h'.2.2⟩

namespace Steps

/-- The cursor never goes back. -/
theorem notBefore (h : Steps fails own m) (s : Decoding) :
    NotBefore s.cursor (final (m s)).cursor := by
  induction h generalizing s with
  | pure a => exact .refl _
  | fail he => exact .refl _
  | position => exact .refl _
  | @read own α f hf =>
    unfold Decoding.read
    cases hread : f s.cursor with
    | error e => exact .refl _
    | ok result => exact hf.forward hread
  | refer node path need select =>
    unfold Decoding.refer
    split
    · exact .refl _
    · exact .refl _
  | clear hi => exact .refl _
  | assign hi value => exact .refl _
  | enter hp name hbody ih => exact ih s.scopes.next _
  | @bind own α β m k hm hk ihm ihk =>
    have hfirst := ihm s
    rw [bind_apply]
    cases hrun : m s with
    | error e s' => rwa [hrun] at hfirst
    | ok a s' =>
      rw [hrun] at hfirst
      exact hfirst.trans (ihk a s')

/-- Only nodes that were given or are new are changed. -/
theorem edits (h : Steps fails own m) (s : Decoding) :
    s.scopes.Edits own (final (m s)).scopes := by
  induction h generalizing s with
  | pure a => exact .refl
  | fail he => exact .refl
  | position => exact .refl
  | @read own α f hf =>
    unfold Decoding.read
    cases f s.cursor with
    | error e => exact .refl
    | ok result => exact .refl
  | refer node path need select =>
    unfold Decoding.refer
    split
    · exact .refl
    · exact .refl
  | clear hi => exact .clear .refl (.inl hi)
  | assign hi value => exact .bind .refl (.inl hi) value
  | @enter own α parent body hp name hbody ih =>
    rw [enter_apply]
    exact .enter hp name (ih s.scopes.next ⟨s.cursor, s.scopes.addChild parent name⟩)
  | @bind own α β m k hm hk ihm ihk =>
    have hfirst := ihm s
    rw [bind_apply]
    cases hrun : m s with
    | error e s' => rwa [hrun] at hfirst
    | ok a s' =>
      rw [hrun] at hfirst
      exact hfirst.trans (ihk a s') fun i hi => .inl hi

theorem error (h : Steps fails own m) (hrun : m s = .error e s') : e.IsDecoding ∨ fails e := by
  induction h generalizing s s' with
  | pure a => cases hrun
  | fail he =>
    cases hrun
    exact he
  | position => cases hrun
  | @read own α f hf =>
    unfold Decoding.read at hrun
    split at hrun
    · cases hrun
    next e' hread =>
      cases hrun
      obtain ⟨_, _, _, rfl⟩ := hf.overruns hread
      exact .inl trivial
  | refer node path need select =>
    unfold Decoding.refer at hrun
    split at hrun
    · cases hrun
    · cases hrun
      exact .inl trivial
  | clear hi => cases hrun
  | assign hi value => cases hrun
  | enter hp name hbody ih => exact ih s.scopes.next hrun
  | @bind own α β m k hm hk ihm ihk =>
    rw [bind_apply] at hrun
    cases hfirst : m s with
    | error e' s₁ =>
      rw [hfirst] at hrun
      cases hrun
      exact ihm hfirst
    | ok a s₁ =>
      rw [hfirst] at hrun
      exact ihk a hrun

end Steps

/-- States with the same cursor and trees that look alike. -/
def Alike (s t : Decoding) : Prop := s.cursor = t.cursor ∧ s.scopes.Alike t.scopes

/-- Results that agree but for when nodes were bound. -/
def ResultAlike : EStateM.Result Error Decoding α → EStateM.Result Error Decoding α → Prop
  | .ok a s, .ok b t => a = b ∧ s.Alike t
  | .error e s, .error e' t => e = e' ∧ s.Alike t
  | _, _ => False

theorem ResultAlike.ok {r r' : EStateM.Result Error Decoding α} (h : ResultAlike r r')
    (hr : r = .ok a s) : ∃ t, r' = .ok a t ∧ s.Alike t := by
  subst hr
  cases r' with
  | ok b t =>
    obtain ⟨rfl, hst⟩ := h
    exact ⟨t, rfl, hst⟩
  | error e t => exact h.elim

theorem ResultAlike.error {r r' : EStateM.Result Error Decoding α} (h : ResultAlike r r')
    (hr : r = .error e s) : ∃ t, r' = .error e t ∧ s.Alike t := by
  subst hr
  cases r' with
  | ok b t => exact h.elim
  | error e' t =>
    obtain ⟨rfl, hst⟩ := h
    exact ⟨t, rfl, hst⟩

/-- The same is decoded in states that look alike. -/
theorem Steps.alike (h : Steps fails own m) {s t : Decoding} (hst : s.Alike t) :
    ResultAlike (m s) (m t) := by
  induction h generalizing s t with
  | pure a => exact ⟨rfl, hst⟩
  | fail he => exact ⟨rfl, hst⟩
  | position => exact ⟨congrArg Cursor.position hst.1, hst⟩
  | @read own α f hf =>
    obtain ⟨hcursor, hscopes⟩ := hst
    unfold Decoding.read
    rw [hcursor]
    cases f t.cursor with
    | error e => exact ⟨rfl, hcursor, hscopes⟩
    | ok result => exact ⟨rfl, rfl, hscopes⟩
  | refer node path need select =>
    unfold Decoding.refer
    rw [hst.2.lookupTokens?]
    cases (t.scopes.lookupTokens? node path.tokens).bind select with
    | none => exact ⟨rfl, hst⟩
    | some a => exact ⟨rfl, hst⟩
  | clear hi => exact ⟨rfl, hst.1, hst.2.clear _⟩
  | assign hi value => exact ⟨rfl, hst.1, hst.2.bind _ value⟩
  | @enter own α parent body hp name hbody ih =>
    rw [enter_apply, enter_apply, hst.2.next]
    exact ih t.scopes.next ⟨hst.1, hst.2.addChild parent name⟩
  | @bind own α β m k hm hk ihm ihk =>
    rw [bind_apply, bind_apply]
    cases hs : m s with
    | error e s₁ =>
      obtain ⟨t₁, ht, hst₁⟩ := (ihm hst).error hs
      rw [ht]
      exact ⟨rfl, hst₁⟩
    | ok a s₁ =>
      obtain ⟨t₁, ht, hst₁⟩ := (ihm hst).ok hs
      rw [ht]
      exact ihk a hst₁

/-- What is decoded depends on no more of the buffer than decoding passes. -/
theorem Steps.bounded (h : Steps fails own m) (hrun : m s = .ok a s') {d : Cursor}
    (hposition : d.position = s.cursor.position)
    (hlimit : s'.cursor.position ≤ d.limit ∨ s.cursor.limit ≤ d.limit)
    (hsame : Bits.SameBelow s'.cursor.position s.cursor.bytes d.bytes) :
    ∃ d', m ⟨d, s.scopes⟩ = .ok a ⟨d', s'.scopes⟩ ∧ d'.position = s'.cursor.position := by
  induction h generalizing s s' d with
  | pure a =>
    cases hrun
    exact ⟨d, rfl, hposition⟩
  | fail he => cases hrun
  | position =>
    cases hrun
    exact ⟨d, by rw [← hposition]; rfl, hposition⟩
  | @read own α f hf =>
    unfold Decoding.read at hrun ⊢
    split at hrun
    next b cursor hread =>
      cases hrun
      obtain ⟨d', hd', hposition'⟩ := hf.bounded hread hposition hlimit hsame
      refine ⟨d', ?_, hposition'⟩
      dsimp only
      rw [hd']
    · cases hrun
  | refer node path need select =>
    unfold Decoding.refer at hrun ⊢
    split at hrun
    next b hfound =>
      cases hrun
      refine ⟨d, ?_, hposition⟩
      dsimp only
      rw [hfound]
    · cases hrun
  | clear hi =>
    cases hrun
    exact ⟨d, rfl, hposition⟩
  | assign hi value =>
    cases hrun
    exact ⟨d, rfl, hposition⟩
  | @enter own α parent body hp name hbody ih =>
    rw [enter_apply] at hrun ⊢
    exact ih s.scopes.next hrun hposition hlimit hsame
  | @bind own α β m k hm hk ihm ihk =>
    rw [bind_apply] at hrun
    cases hfirst : m s with
    | error e s₁ =>
      rw [hfirst] at hrun
      cases hrun
    | ok b s₁ =>
      rw [hfirst] at hrun
      dsimp only at hrun
      -- the first part passes no more than the whole does
      have hs₁ := hm.notBefore s
      have hs' := (hk b).notBefore s₁
      rw [hfirst, final_ok] at hs₁
      rw [hrun, final_ok] at hs'
      obtain ⟨d₁, hd₁, hposition₁⟩ := ihm hfirst hposition (hlimit.imp_left (Nat.le_trans hs'.2.2))
        (hsame.mono hs'.2.2)
      have hd := hm.notBefore ⟨d, s.scopes⟩
      rw [hd₁, final_ok] at hd
      obtain ⟨d', hd', hposition'⟩ := ihk b hrun hposition₁ (by rwa [hd.2.1, hs₁.2.1])
        (by rwa [hs₁.1, hd.1])
      refine ⟨d', ?_, hposition'⟩
      rw [bind_apply, hd₁]
      exact hd'

end CommonTrace.Decoding

namespace CommonTrace.Declaration

open Decoding

variable {scope : DynamicScope} {s s' : Decoding} {value : Value}

/-- Decoding a value, even if it fails, changes no node but its own and new ones. -/
theorem edits_decodeAt (type : Declaration) (node : NodeId) (s : Decoding) :
    s.scopes.Edits (· = node) (final (type.decodeAt node s)).scopes := by
  have hsteps : Steps (fun _ => False) (· = node) (type.decodeAt node) := type.steps_decodeAt node
  exact hsteps.edits s

theorem edits_decode (type : Declaration) (parent : NodeId) (name : String) (s : Decoding) :
    s.scopes.Edits (· = parent) (final (type.decode parent name s)).scopes := by
  have hsteps : Steps (fun _ => False) (· = parent) (type.decode parent name) :=
    type.steps_decode parent name
  exact hsteps.edits s

theorem edits_decodeRoot (type : Declaration) (scope : DynamicScope) (s : Decoding) :
    s.scopes.Edits (· = ScopeTree.root scope) (final (type.decodeRoot scope s)).scopes := by
  have hsteps : Steps (fun _ => False) (· = ScopeTree.root scope) (type.decodeRoot scope) :=
    type.steps_decodeRoot scope (by rfl)
  exact hsteps.edits s

theorem edits_of_decodeRoot {type : Declaration} (h : type.decodeRoot scope s = .ok value s') :
    s.scopes.Edits (· = ScopeTree.root scope) s'.scopes := by
  have hedits := type.edits_decodeRoot scope s
  rwa [h, final_ok] at hedits

end CommonTrace.Declaration
