import CommonTrace.Proofs.Decoding.Registering
import CommonTrace.Proofs.Scope.Paths
import CommonTrace.Proofs.Stream.Reachable

/-!
# What paths stand for at an event

The tree of scopes that a reader decodes into is rewound before each packet and before each
event. So while there is a current event, the paths into the sections of an event stand for the
values of that event's sections and of what they are made of, and for nothing where a section is
missing or the event is a record of lost events. Only a reader that has come to its end or has
failed may have something left there that was decoded before.
-/
namespace CommonTrace

open Decoding

/-- The scopes that the sections of an event are decoded below. -/
def DynamicScope.ofEvent : List DynamicScope :=
  [.eventHeader, .streamEventContext, .eventContext, .eventFields]

/-- The section of an event that is decoded below a scope. -/
def Event.section? (event : Event) (scope : DynamicScope) : Option Value :=
  match event.body, scope with
  | .decoded _ header _ _ _, .eventHeader => header
  | .decoded _ _ streamContext _ _, .streamEventContext => streamContext
  | .decoded _ _ _ context _, .eventContext => context
  | .decoded _ _ _ _ fields, .eventFields => fields
  | _, _ => none

namespace ScopeTree

/-- A linked tree in which names lead to the same below the scopes of events as within the sections
given. -/
structure Shows (sections : DynamicScope → Option Value) (t : ScopeTree) : Prop where
  linked : t.Linked
  below : ∀ scope ∈ DynamicScope.ofEvent, ∀ names,
    t.valueBelow? (root scope) names = (sections scope).bind (·.below? names)

variable {t : ScopeTree} {sections : DynamicScope → Option Value} {scope : DynamicScope}

theorem shows_of_vacant (ht : t.Linked) (hvacant : ∀ i, OpenPacket.eventRoots i → t.Vacant i) :
    Shows (fun _ => none) t := by
  refine ⟨ht, fun scope hscope names => ?_⟩
  obtain ⟨hvalue, hchild⟩ := hvacant _ ⟨scope, hscope, rfl⟩
  cases names with
  | nil => exact hvalue
  | cons name names =>
    rw [valueBelow?_cons, hchild]
    rfl

/-- What a path into a section stands for. -/
theorem Shows.resolve (h : Shows sections t) (hscope : scope ∈ DynamicScope.ofEvent)
    {path : String} {names : List String} (hpath : Text.splitDots path = scope.tokens ++ names)
    (start : NodeId) :
    t.resolve start path =
      match (sections scope).bind (·.below? names) with
      | some value => .ok value
      | none => .error (.scopeResolution path .any) := by
  have hlookup : t.lookup? start path = t.valueBelow? (root scope) names := by
    rw [lookup?, hpath, lookupTokens?_append]
  rw [h.below scope hscope] at hlookup
  generalize (sections scope).bind (·.below? names) = found at hlookup ⊢
  cases found with
  | none => simp only [ScopeTree.resolve, hlookup]
  | some value => simp only [ScopeTree.resolve, hlookup]

end ScopeTree

namespace OpenPacket

open ScopeTree (Shows Registers)

variable {sections : DynamicScope → Option Value} {p : OpenPacket} {event : Event}
  {s s' : Decoding}

/-- Decoding a section shows it below its scope, and leaves the others. -/
theorem ensures_section? (type : Option StructType) (scope : DynamicScope)
    (hnone : sections scope = none) :
    Ensures (Shows sections) (Preamble.section? type scope) fun found =>
      Shows (Function.update sections scope found) := by
  cases type with
  | none =>
    refine .pure fun t ht => ?_
    rwa [← hnone, Function.update_eq_self]
  | some type =>
    intro s found s' hs hrun
    obtain ⟨value, rfl, hvalue⟩ := Preamble.section?_eq_ok hrun
    have hregisters := Declaration.ensures_decodeRoot type.declaration scope s value s' hs.linked
      hvalue
    have hedits := Declaration.edits_of_decodeRoot hvalue
    refine ⟨hregisters.linked, fun other hother names => ?_⟩
    by_cases heq : other = scope
    · subst heq
      rw [Function.update_self, hregisters.below]
      rfl
    · have hne : ScopeTree.root scope ≠ ScopeTree.root other :=
        fun h => heq (ScopeTree.root_injective h).symm
      have hroots := (hs.linked.root scope).2.trans (hs.linked.root other).2.symm
      rw [Function.update_of_ne heq, ← hs.below other hother,
        hedits.valueBelow? hs.linked (hs.linked.has_root other)
          (ScopeTree.Under.disjoint hs.linked hroots hne .refl)]

theorem ensures_lift {α : Type} {P : ScopeTree → Prop} (r : Except Error α) :
    Ensures P (Preamble.lift r) fun _ => P := by
  cases r with
  | ok a => exact .pure fun _ ht => ht
  | error e => exact .fail

/-- An event that is decoded where nothing is left of others is shown by the tree. -/
theorem ensures_decodeParts (streamClass : StreamClass) (p : OpenPacket) :
    Ensures (Shows fun _ => none) (decodeParts streamClass p) fun event =>
      Shows event.section? := by
  unfold decodeParts
  refine (ensures_section? _ _ rfl).bind fun header => ?_
  dsimp only
  refine (ensures_lift _).bind fun eventClass => ?_
  refine (ensures_section? _ _ rfl).bind fun streamContext => ?_
  refine (ensures_section? _ _ rfl).bind fun context => ?_
  refine (ensures_section? _ _ rfl).bind fun fields => .pure fun t ht => ?_
  refine ⟨ht.linked, fun scope hscope names => ?_⟩
  rw [ht.below scope hscope]
  cases scope <;> rfl

theorem shows_of_decodeEvent {streamClass : StreamClass} (h : Shows (fun _ => none) s.scopes)
    (hrun : p.decodeEvent streamClass s = .ok event s') : Shows event.section? s'.scopes :=
  ensures_decodeParts streamClass p s event s' h (eq_ok_of_consuming hrun)

/-- A tree that is rewound to the end of a preamble shows no event. -/
theorem Held.shows {metadata : Metadata} {fresh t : ScopeTree} (h : p.Held metadata fresh t) :
    Shows (fun _ => none) (t.rewind p.point) := by
  have hcount : DynamicScope.count ≤ p.point.size :=
    Nat.le_trans metadata.linked_baseScopes.count_le h.notAfter.1
  refine ScopeTree.shows_of_vacant (h.restores.linked.rewind hcount) fun i hi => ?_
  exact h.restores.alike.symm.vacant (h.vacant i hi).2

/-- A record of lost events has no sections. -/
theorem section?_lostRecord? {order : ByteOrder} {streamId : Nat} {endBefore : Option Nat}
    (h : p.lostRecord? order streamId endBefore = some event) : event.section? = fun _ => none := by
  unfold lostRecord? at h
  split at h
  · cases h
  · cases h
    rfl

end OpenPacket

namespace StreamReader

open ScopeTree (Shows)

variable {f : StreamFile} {r : StreamReader} {p : OpenPacket} {fresh : ScopeTree} {event : Event}
  {rest : List (Except Error Event)}

/-- The tree of scopes shows the current event, if there is one. -/
def ShowsCurrent (r : StreamReader) : Prop :=
  ∀ event, r.current = some event → Shows event.section? r.scopes

theorem showsCurrent_of_none (h : r.current = none) : r.ShowsCurrent := by
  intro event hcurrent
  cases h.symm.trans hcurrent

theorem showsCurrent_readEvent {step : Outcome × StreamReader}
    (hheld : p.Held f.metadata fresh r.scopes) (h : r.readEvent p = some step) :
    step.2.ShowsCurrent := by
  unfold readEvent at h
  split at h
  · cases h
    exact showsCurrent_of_none rfl
  · cases h
  · split at h
    next event s hrun =>
      cases h
      intro event' hcurrent
      cases hcurrent
      exact OpenPacket.shows_of_decodeEvent hheld.shows hrun
    · cases h
      exact showsCurrent_of_none rfl

theorem showsCurrent_readPackets (hf : f.Indexed) (h : Ready f r) :
    r.readPackets.2.ShowsCurrent := by
  fun_induction readPackets r with
  | case1 r hplace opened r' e he => exact showsCurrent_of_none rfl
  | case2 r hplace opened r' p hp record hrecord =>
    obtain ⟨p', t', hopen, -, hheld, -⟩ := openPacket_of_ready hf h hplace
    have hopened : opened = (.ok p', t') := hopen
    intro event hcurrent
    cases hcurrent
    rw [OpenPacket.section?_lostRecord? hrecord]
    refine ScopeTree.shows_of_vacant ?_ fun i hi => ?_
    · simpa only [r', hopened] using hheld.restores.linked
    · simpa only [r', hopened] using (hheld.vacant i hi).2
  | case3 r hplace opened r' p hp hnone step hstep =>
    obtain ⟨p', t', hopen, -, hheld, -⟩ := openPacket_of_ready hf h hplace
    have hopened : opened = (.ok p', t') := hopen
    rw [hopened] at hp
    cases hp
    have hheld' : p.Held f.metadata t' r'.scopes := by simpa only [r', hopened] using hheld
    exact showsCurrent_readEvent hheld' hstep
  | case4 r hplace opened r' p hp hnone hread ih =>
    obtain ⟨p', t', hopen, hrestores, -⟩ := openPacket_of_ready hf h hplace
    have hopened : opened = (.ok p', t') := hopen
    exact ih ⟨h.file, h.base, by simpa only [r', hopened] using hrestores⟩
  | case5 r hplace => exact showsCurrent_of_none rfl

theorem showsCurrent_advance (hf : f.Indexed) (h : Pending f r rest) :
    r.advance.2.ShowsCurrent := by
  unfold advance
  split
  next step hstep =>
    obtain ⟨p, hpacket, hread⟩ := Option.bind_eq_some_iff.1 hstep
    cases h with
    | between h hnone => cases hnone.symm.trans hpacket
    | within h hsome hheld =>
      cases hsome.symm.trans hpacket
      exact showsCurrent_readEvent hheld hread
  · exact showsCurrent_readPackets hf h.ready

theorem Reachable.showsCurrent (hf : f.Indexed) (h : Reachable f r) : r.ShowsCurrent := by
  cases h with
  | start => exact showsCurrent_of_none rfl
  | @advance r h =>
    obtain ⟨rest, hpending, -⟩ := h.steady hf
    exact showsCurrent_advance hf hpending
  | @seek r h timestamp =>
    obtain ⟨r', ⟨rest, hpending, -⟩, heq⟩ := exists_advance_of_seek hf (h.steady hf) timestamp
    rw [heq]
    exact showsCurrent_advance hf hpending

/-- However a reader of a file has been moved, while it has a current event a path into a section
of events stands for the value that the path leads to from that section of the event, and for
nothing where the event has no such section, as a record of lost events has none. Before it is
moved such a path stands for nothing. -/
theorem resolve_of_current {metadata : Metadata} {policy : LostEventsPolicy} {input : Input}
    {scope : DynamicScope} {path : String} {names : List String}
    (h : StreamFile.ofInput metadata policy input = .ok f) (hr : Reachable f r)
    (hmoved : r.current.isSome ∨ r = start f) (hscope : scope ∈ DynamicScope.ofEvent)
    (hpath : Text.splitDots path = scope.tokens ++ names) :
    r.resolve path =
      match (r.current.bind (·.section? scope)).bind (·.below? names) with
      | some value => .ok value
      | none => .error (.scopeResolution path .any) := by
  obtain ⟨hf, -⟩ := StreamFile.ofInput_eq_ok h
  rcases hmoved with hsome | rfl
  · obtain ⟨event, hcurrent⟩ := Option.isSome_iff_exists.1 hsome
    rw [hcurrent]
    exact (hr.showsCurrent hf event hcurrent).resolve hscope hpath _
  · have hshows : Shows (fun _ => none) (start f).scopes :=
      ScopeTree.shows_of_vacant f.metadata.linked_baseScopes fun i hi =>
        (OpenPacket.vacant_eventRoots f.metadata i hi).2
    exact hshows.resolve hscope hpath _

/-- The fields of the first of two events. -/
theorem resolve_of_current_bytes :
    ∃ f r event, StreamFile.ofInput byteTrace .clamp byteInput = .ok f ∧ Reachable f r ∧
      r.current = some event ∧ DynamicScope.eventFields ∈ DynamicScope.ofEvent ∧
      Text.splitDots "event.fields.value" = DynamicScope.eventFields.tokens ++ ["value"] ∧
      r.resolve "event.fields.value" =
        match (event.section? .eventFields).bind (·.below? ["value"]) with
        | some value => .ok value
        | none => .error (.scopeResolution "event.fields.value" .any) := by
  have hrun : (StreamFile.ofInput byteTrace .clamp byteInput).toOption.map (fun f =>
      (start f).advance.2.current.isSome) = some true := by
    decide +kernel
  obtain ⟨f, h, hsome⟩ := exists_eq_ok hrun
  obtain ⟨event, hcurrent⟩ := Option.isSome_iff_exists.1 hsome
  have hr : Reachable f (start f).advance.2 := .advance .start
  have hscope : DynamicScope.eventFields ∈ DynamicScope.ofEvent := by decide
  have hpath : Text.splitDots "event.fields.value" =
      DynamicScope.eventFields.tokens ++ ["value"] := by
    decide +kernel
  have hresolve := resolve_of_current h hr (.inl hsome) hscope hpath
  rw [hcurrent] at hresolve
  exact ⟨f, (start f).advance.2, event, h, hr, hcurrent, hscope, hpath, hresolve⟩

/-- At the end of a stream there is no current event, but the fields of the last one are still
there. -/
theorem resolve_at_end :
    ∃ f r value, StreamFile.ofInput byteTrace .clamp byteInput = .ok f ∧ Reachable f r ∧
      r.current = none ∧ r.resolve "event.fields.value" = .ok value ∧ value.integer? = some 2 := by
  have hrun : (StreamFile.ofInput byteTrace .clamp byteInput).toOption.map (fun f =>
      let r := (start f).advance.2.advance.2.advance.2
      (r.current.isNone, (r.resolve "event.fields.value").toOption.bind Value.integer?)) =
        some (true, some 2) := by
    decide +kernel
  obtain ⟨f, h, hrun⟩ := exists_eq_ok hrun
  obtain ⟨hnone, hvalue⟩ := Prod.mk.inj hrun
  have hr : Reachable f (start f).advance.2.advance.2.advance.2 :=
    .advance (.advance (.advance .start))
  cases hresolve : (start f).advance.2.advance.2.advance.2.resolve "event.fields.value" with
  | error e =>
    rw [hresolve] at hvalue
    cases hvalue
  | ok value =>
    rw [hresolve] at hvalue
    exact ⟨f, _, value, h, hr, Option.isNone_iff_eq_none.1 hnone, hresolve, hvalue⟩

end StreamReader

end CommonTrace
