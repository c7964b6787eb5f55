import CommonTrace.Proofs.Event.Attributes
import CommonTrace.Proofs.Stream.Reachable

/-!
# Events of a stream have decoded sections

Whatever event a reader of a file comes to, its sections have been decoded: those of the event
itself when it was read, and the packet context when its packet was opened. So the attributes of
the event are what they should be, as long as no name in it has a point.
-/
namespace CommonTrace

open Decoding

/-- Whether the type of a section, if it has one, is well formed. -/
def SectionTyped (type : Option StructType) : Prop := ∀ t, type = some t → t.declaration.WellFormed

/-- Whether the types of all sections of a stream and its events are well formed. -/
structure StreamClass.WellTyped (c : StreamClass) : Prop where
  packetContext : SectionTyped c.packetContext
  eventHeader : SectionTyped c.eventHeader
  eventContext : SectionTyped c.eventContext
  events : ∀ event ∈ c.events, SectionTyped event.context ∧ SectionTyped event.fields

/-- Whether a section, if there is one, has been decoded. -/
def SectionDecoded (found : Option Value) : Prop := ∀ v ∈ found.toList, v.IsContent

variable {type : Option StructType} {scope : DynamicScope} {s s' : Decoding} {found : Option Value}
  {metadata : Metadata} {streamClass : StreamClass} {p : OpenPacket} {event : Event}

theorem Preamble.sectionDecoded (htype : SectionTyped type)
    (h : section? type scope s = .ok found s') : SectionDecoded found := by
  cases type with
  | none =>
    cases h
    exact nofun
  | some type =>
    obtain ⟨value, rfl, hvalue⟩ := section?_eq_ok h
    intro v hv
    obtain rfl := List.mem_singleton.1 hv
    exact ⟨type, scope, s, s', htype type rfl, hvalue⟩

theorem Preamble.sectionDecoded_context {offset : Nat} {preamble : Preamble}
    (htypes : ∀ c ∈ metadata.streams, c.WellTyped)
    (h : decode metadata offset s = .ok preamble s') : SectionDecoded preamble.context := by
  have hcontext {id : Option Nat} {s₁ : Decoding}
      (h : decodeContext metadata id s₁ = .ok preamble s') : SectionDecoded preamble.context := by
    obtain ⟨c, s₂, hclass, h⟩ := bind_eq_ok h
    obtain ⟨context, s₃, hcontext, h⟩ := bind_eq_ok h
    obtain ⟨payloadStart, s₄, -, h⟩ := bind_eq_ok h
    cases h
    have hc : c ∈ metadata.streams :=
      List.mem_of_find?_eq_some (stream?_of_classOf (lift_eq_ok hclass).1)
    exact sectionDecoded (htypes c hc).packetContext hcontext
  unfold decode at h
  obtain ⟨header, s₁, -, h⟩ := bind_eq_ok h
  cases header with
  | none => exact hcontext h
  | some header =>
    obtain ⟨id, s₂, -, h⟩ := bind_eq_ok h
    exact hcontext h

namespace OpenPacket

theorem mem_events_of_classOf {id : Option Nat} {eventClass : EventClass}
    (h : classOf streamClass id = .ok eventClass) : eventClass ∈ streamClass.events := by
  unfold classOf at h
  dsimp only at h
  split at h
  next found hfound =>
    cases h
    cases id with
    | some id => exact List.mem_of_find?_eq_some hfound
    | none =>
      unfold StreamClass.singleEvent? at hfound
      dsimp only at hfound
      split at hfound
      next hevents =>
        cases hfound
        rw [hevents]
        exact List.mem_singleton_self _
      · cases hfound
  · cases h

theorem contents_of_decodeEvent (hclass : streamClass.WellTyped) (hp : SectionDecoded p.context)
    (h : p.decodeEvent streamClass s = .ok event s') : ∀ v ∈ event.contents, v.IsContent := by
  obtain ⟨header, eventClass, streamContext, context, fields, s₁, s₂, s₃, hheader, hevent, hstream,
    hcontext, hfields, rfl⟩ := decodeEvent_eq_ok h
  have htypes := hclass.events eventClass (mem_events_of_classOf hevent)
  intro v hv
  simp only [Event.contents, List.mem_append] at hv
  rcases hv with hv | ((hv | hv) | hv) | hv
  · exact hp v hv
  · exact Preamble.sectionDecoded hclass.eventHeader hheader v hv
  · exact Preamble.sectionDecoded hclass.eventContext hstream v hv
  · exact Preamble.sectionDecoded htypes.1 hcontext v hv
  · exact Preamble.sectionDecoded htypes.2 hfields v hv

theorem contents_of_lostRecord? {order : ByteOrder} {streamId : Nat} {endBefore : Option Nat}
    (hp : SectionDecoded p.context) (h : p.lostRecord? order streamId endBefore = some event) :
    ∀ v ∈ event.contents, v.IsContent := by
  unfold lostRecord? at h
  split at h
  · cases h
  · cases h
    intro v hv
    rw [Event.contents, List.append_nil] at hv
    exact hp v hv

end OpenPacket

theorem StreamFile.sectionDecoded_context {f : StreamFile} {base : ScopeCheckpoint}
    {scopes : ScopeTree} {place : Nat} {entry : PacketEntry}
    (htypes : ∀ c ∈ f.metadata.streams, c.WellTyped)
    (h : (f.openPacket base scopes place entry).1 = .ok p) : SectionDecoded p.context := by
  unfold openPacket at h
  dsimp only at h
  split at h
  · cases h
  next preamble s hrun =>
    dsimp only at h
    split at h
    · cases h
      exact Preamble.sectionDecoded_context htypes hrun
    · cases h

namespace StreamReader

variable {f : StreamFile} {r : StreamReader} {step : Outcome × StreamReader}

/-- A reader of a file whose packet and current event have decoded sections. -/
structure Sectioned (f : StreamFile) (r : StreamReader) : Prop where
  file : r.file = f
  packet : ∀ p, r.packet = some p → SectionDecoded p.context
  current : ∀ event, r.current = some event → ∀ v ∈ event.contents, v.IsContent

theorem sectioned_of_none (hfile : r.file = f) (hpacket : r.packet = none)
    (hcurrent : r.current = none) : Sectioned f r := by
  refine ⟨hfile, fun p hp => ?_, fun event hevent => ?_⟩
  · cases hpacket.symm.trans hp
  · cases hcurrent.symm.trans hevent

theorem sectioned_readEvent (hfile : r.file = f) (hclass : f.streamClass.WellTyped)
    (hp : SectionDecoded p.context) (h : r.readEvent p = some step) : Sectioned f step.2 := by
  unfold readEvent at h
  split at h
  · cases h
    exact sectioned_of_none hfile rfl rfl
  · cases h
  · split at h
    next event s hrun =>
      cases h
      refine ⟨hfile, fun p' hp' => ?_, fun event' hevent => ?_⟩
      · cases hp'
        exact hp
      · cases hevent
        rw [hfile] at hrun
        exact OpenPacket.contents_of_decodeEvent hclass hp hrun
    · cases h
      exact sectioned_of_none hfile rfl rfl

theorem sectioned_readPackets (htypes : ∀ c ∈ f.metadata.streams, c.WellTyped)
    (hclass : f.streamClass.WellTyped) (hfile : r.file = f) : Sectioned f r.readPackets.2 := by
  fun_induction readPackets r with
  | case1 r h opened r' e he => exact sectioned_of_none hfile rfl rfl
  | case2 r h opened r' p hp record hrecord =>
    have hcontext : SectionDecoded p.context :=
      StreamFile.sectionDecoded_context (hfile ▸ htypes) hp
    refine ⟨hfile, fun p' hp' => ?_, fun event hevent => ?_⟩
    · cases hp'
      exact hcontext
    · cases hevent
      exact OpenPacket.contents_of_lostRecord? hcontext hrecord
  | case3 r h opened r' p hp hnone step hstep =>
    have hcontext : SectionDecoded p.context :=
      StreamFile.sectionDecoded_context (hfile ▸ htypes) hp
    have hfile' : r'.file = f := hfile
    exact sectioned_readEvent hfile' hclass hcontext hstep
  | case4 r h opened r' p hp hnone hread ih => exact ih hfile
  | case5 r h => exact sectioned_of_none hfile rfl rfl

theorem Sectioned.advance (htypes : ∀ c ∈ f.metadata.streams, c.WellTyped)
    (hclass : f.streamClass.WellTyped) (h : Sectioned f r) : Sectioned f r.advance.2 := by
  unfold StreamReader.advance
  split
  next step hstep =>
    obtain ⟨p, hpacket, hread⟩ := Option.bind_eq_some_iff.1 hstep
    exact sectioned_readEvent h.file hclass (h.packet p hpacket) hread
  · exact sectioned_readPackets htypes hclass h.file

theorem Reachable.sectioned (hf : f.Indexed) (htypes : ∀ c ∈ f.metadata.streams, c.WellTyped)
    (h : Reachable f r) : Sectioned f r := by
  have hclass : f.streamClass.WellTyped := htypes _ (List.mem_of_find?_eq_some hf.declared)
  induction h with
  | start => exact sectioned_of_none rfl rfl rfl
  | advance _ ih => exact ih.advance htypes hclass
  | @seek r _ timestamp ih =>
    have hmoved (place : Nat) :
        Sectioned f { r with packet := none, nextPacket := place, current := none } :=
      sectioned_of_none ih.file rfl rfl
    obtain ⟨r', hr', heq⟩ :=
      exists_advance_of_skipBefore (fun _ h => h.advance htypes hclass) (hmoved _)
    rw [StreamReader.seek, heq]
    exact hr'.advance htypes hclass

/-- The attributes of the current event are what is shown of it, however the reader of a file has
been moved, as long as no name in the event has a point. -/
theorem attributes_of_current {policy : LostEventsPolicy} {input : Input}
    (h : StreamFile.ofInput metadata policy input = .ok f)
    (htypes : ∀ c ∈ metadata.streams, c.WellTyped) (hr : Reachable f r)
    (hcurrent : r.current = some event) (hnames : ∀ v ∈ event.contents, v.Undotted)
    {key : EventKey} {a : AttributeValue} :
    event.attributes[key]? = some a ↔ event.Shows key a := by
  obtain ⟨hf, hmetadata, -⟩ := StreamFile.ofInput_eq_ok h
  have hsectioned := hr.sectioned hf (hmetadata ▸ htypes)
  exact Event.getElem?_attributes (hsectioned.current event hcurrent) hnames

end StreamReader

end CommonTrace
