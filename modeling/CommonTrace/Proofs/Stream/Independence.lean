import CommonTrace.Proofs.Stream.Events

/-!
# Packets are independent

A reader decodes all packets of a file and all their events into one tree of scopes, which
it rewinds before each of them. Still, what it yields is what the packets yield on their
own, one after the other. Between any two steps of reading the tree can be restored to the
state before all packets and, while a packet is open, to the one after its preamble.
-/
namespace CommonTrace

open Decoding

/-- The tree of scopes while a packet is open: rewinding it to the packet's point restores
the tree `fresh` that the packet's preamble has left, in which no event has been decoded. -/
structure OpenPacket.Held (p : OpenPacket) (metadata : Metadata) (fresh t : ScopeTree) : Prop where
  restores : ScopeTree.Restores p.point fresh t
  notAfter : metadata.baseScopes.checkpoint.NotAfter p.point
  vacant : ∀ i, OpenPacket.eventRoots i → fresh.Has i ∧ fresh.Vacant i

namespace OpenPacket

theorem vacant_eventRoots (metadata : Metadata) (i : NodeId) (hi : eventRoots i) :
    metadata.baseScopes.Has i ∧ metadata.baseScopes.Vacant i := by
  obtain ⟨scope, hscope, rfl⟩ := hi
  refine ⟨metadata.has_root_baseScopes scope, metadata.vacant_baseScopes ?_⟩
  rintro rfl
  simp at hscope

theorem not_roots_of_eventRoots {i : NodeId} (hi : eventRoots i) : ¬Preamble.roots i := by
  obtain ⟨scope, hscope, rfl⟩ := hi
  rintro (heq | heq)
  · rw [ScopeTree.root_injective heq] at hscope
    simp at hscope
  · rw [ScopeTree.root_injective heq] at hscope
    simp at hscope

/-- A packet is held after its preamble, which is decoded below other roots than the events. -/
theorem held_of_edits {metadata : Metadata} {before fresh : ScopeTree} {p : OpenPacket}
    (hfresh : metadata.Restores fresh) (halike : before.Alike metadata.baseScopes)
    (hedits : before.Edits Preamble.roots fresh) (hpoint : p.point = fresh.checkpoint) :
    p.Held metadata fresh fresh := by
  refine ⟨hpoint ▸ .now hfresh.linked, ?_, fun i hi => ?_⟩
  · rw [hpoint]
    exact ⟨hfresh.size_le, hfresh.clock_le⟩
  · obtain ⟨hhas, hvacant⟩ := vacant_eventRoots metadata i hi
    have hhas' := (halike.has i).2 hhas
    have hvacant' := halike.symm.vacant hvacant
    obtain ⟨hvalue, -, hchild⟩ := hedits.frame hhas' (not_roots_of_eventRoots hi)
    exact ⟨hedits.has hhas', hvalue.trans hvacant'.1, fun n => (hchild n).trans (hvacant'.2 n)⟩

end OpenPacket

/-- A packet is opened from any tree that can be restored, and yields then what it yields on
its own. -/
theorem StreamFile.openPacket_spec {f : StreamFile} {place : Nat} {t : ScopeTree}
    (hf : f.Indexed) (ht : f.metadata.Restores t) (hplace : place < f.index.entries.size) :
    ∃ p t', f.openPacket f.metadata.baseScopes.checkpoint t place f.index.entries[place] =
        (.ok p, t') ∧
      f.metadata.Restores t' ∧ p.Held f.metadata t' t' ∧
      f.resultsOf place f.index.entries[place] =
        (p.lostRecord? f.metadata.byteOrder f.streamClass.id (f.endBefore place)).toList.map .ok
          ++ p.results f.streamClass t' := by
  obtain ⟨preamble, s, hrun, hpayload, hclass⟩ := hf.decode (Array.getElem_mem hplace)
  have hclean := ht.clean
  -- nothing is seen of what was decoded before the tree was rewound
  generalize hentry : f.index.entries[place] = entry at hrun hpayload ⊢
  have halike : Decoding.Alike ⟨entry.cursor (f.bytesOf entry), f.metadata.baseScopes⟩
      ⟨entry.cursor (f.bytesOf entry), t.rewind f.metadata.baseScopes.checkpoint⟩ :=
    ⟨rfl, hclean.alike.symm⟩
  obtain ⟨s', hrun', hs'⟩ := ((Preamble.steps_decode f.metadata _).alike halike).ok hrun
  have hrestores := Preamble.restores_decode entry.offset
    ⟨entry.cursor (f.bytesOf entry), t.rewind f.metadata.baseScopes.checkpoint⟩ (.refl _)
    hclean.restores
  rw [hrun', final_ok] at hrestores
  have hedits := (Preamble.steps_decode f.metadata entry.offset).edits
    ⟨entry.cursor (f.bytesOf entry), t.rewind f.metadata.baseScopes.checkpoint⟩
  rw [hrun', final_ok] at hedits
  have hheld : (preamble.opened place entry (f.bytesOf entry) s'.scopes.checkpoint).Held
      f.metadata s'.scopes s'.scopes := OpenPacket.held_of_edits hrestores hclean.alike hedits rfl
  refine ⟨preamble.opened place entry (f.bytesOf entry) s'.scopes.checkpoint, s'.scopes, ?_,
    hrestores, hheld, ?_⟩
  · unfold openPacket
    dsimp only
    rw [hrun']
    dsimp only
    rw [if_pos (congrArg StreamClass.id hclass)]
  · unfold resultsOf Metadata.packetResults
    rw [hrun]
    dsimp only
    rw [hclass, ← OpenPacket.results_congr hs'.2 s'.scopes.checkpoint]
    rfl

namespace StreamReader

variable {f : StreamFile} {r r' : StreamReader} {p : OpenPacket} {fresh : ScopeTree}
  {rest : List (Except Error Event)}

/-- A reader of a file whose tree of scopes can be restored to the state before all packets. -/
structure Ready (f : StreamFile) (r : StreamReader) : Prop where
  file : r.file = f
  base : r.base = f.metadata.baseScopes.checkpoint
  restores : f.metadata.Restores r.scopes

/-- What is left to be read: of the open packet, if there is one, and of those after it. -/
inductive Pending (f : StreamFile) (r : StreamReader) : List (Except Error Event) → Prop
  | between (h : Ready f r) (hpacket : r.packet = none) : Pending f r (f.resultsFrom r.nextPacket)
  | within (h : Ready f r) {p : OpenPacket} (hpacket : r.packet = some p) {fresh : ScopeTree}
      (hheld : p.Held f.metadata fresh r.scopes) :
      Pending f r (p.results f.streamClass fresh ++ f.resultsFrom r.nextPacket)

/-- Whether a step yields the first of what is left to be read, and leaves the others. -/
def Yields (f : StreamFile) (step : Outcome × StreamReader) (rest : List (Except Error Event)) :
    Prop :=
  match step with
  | (.ok none, r') => rest = [] ∧ Pending f r' []
  | (.ok (some event), r') => ∃ rest', rest = .ok event :: rest' ∧ Pending f r' rest'
  | (.error e, r') => ∃ rest', rest = .error e :: rest' ∧ Pending f r' rest'

/-- The tree of scopes can be restored whatever comes of decoding an event. -/
theorem held_decodeEvent (h : Ready f r) (hheld : p.Held f.metadata fresh r.scopes)
    (cursor : Cursor) :
    f.metadata.Restores
        (final (p.decodeEvent f.streamClass ⟨cursor, r.scopes.rewind p.point⟩)).scopes ∧
      p.Held f.metadata fresh
        (final (p.decodeEvent f.streamClass ⟨cursor, r.scopes.rewind p.point⟩)).scopes := by
  have hedits := OpenPacket.edits_decodeEvent f.streamClass p ⟨cursor, r.scopes.rewind p.point⟩
  have hcount : DynamicScope.count ≤ p.point.size :=
    Nat.le_trans f.metadata.linked_baseScopes.count_le hheld.notAfter.1
  refine ⟨?_, ?_, hheld.notAfter, hheld.vacant⟩
  · exact (h.restores.rewind hheld.notAfter hcount).edits hedits
      (OpenPacket.vacant_eventRoots f.metadata)
  · exact (hheld.restores.rewind ⟨Nat.le_refl _, Nat.le_refl _⟩ hcount).edits hedits hheld.vacant

/-- Reading an event takes the first result of the open packet. -/
theorem readEvent_spec (h : Ready f r) (hheld : p.Held f.metadata fresh r.scopes) :
    match r.readEvent p with
    | none => p.results f.streamClass fresh = []
    | some step => Yields f step (p.results f.streamClass fresh ++ f.resultsFrom r.nextPacket) := by
  unfold readEvent
  cases hnext : p.nextEvent with
  | error e =>
    rw [OpenPacket.results_of_lost_place hnext]
    exact ⟨_, rfl, .between ⟨h.file, h.base, h.restores⟩ rfl⟩
  | ok cursor? =>
    cases cursor? with
    | none => exact OpenPacket.results_of_end hnext
    | some cursor =>
      dsimp only
      rw [h.file]
      -- what the tree held beyond the packet's point is not seen
      have halike := OpenPacket.alike_decodeEvent f.streamClass p cursor hheld.restores.alike
      obtain ⟨hrestores, hheld'⟩ := held_decodeEvent h hheld cursor
      cases hrun : p.decodeEvent f.streamClass ⟨cursor, r.scopes.rewind p.point⟩ with
      | error e s =>
        obtain ⟨t, ht, -⟩ := halike.error hrun
        rw [hrun, final_error] at hrestores
        rw [OpenPacket.results_of_failure hnext ht]
        exact ⟨_, rfl, .between ⟨rfl, h.base, hrestores⟩ rfl⟩
      | ok event s =>
        obtain ⟨t, ht, hst⟩ := halike.ok hrun
        rw [hrun, final_ok] at hrestores hheld'
        rw [OpenPacket.results_of_event hnext ht, ← hst.1]
        have hafter : (p.after event s.cursor.position).Held f.metadata fresh s.scopes :=
          ⟨hheld'.restores, hheld'.notAfter, hheld'.vacant⟩
        refine ⟨(p.after event s.cursor.position).results f.streamClass fresh
          ++ f.resultsFrom r.nextPacket, rfl, ?_⟩
        refine .within ?_ rfl hafter
        exact ⟨rfl, h.base, hrestores⟩

/-- What a packet yields on its own is left to be read once it is open. -/
theorem openPacket_of_ready (hf : f.Indexed) (h : Ready f r)
    (hplace : r.nextPacket < r.file.index.entries.size) :
    ∃ p t', r.file.openPacket r.base r.scopes r.nextPacket r.file.index.entries[r.nextPacket] =
        (.ok p, t') ∧
      f.metadata.Restores t' ∧ p.Held f.metadata t' t' ∧
      f.resultsFrom r.nextPacket =
        (p.lostRecord? r.file.metadata.byteOrder r.file.streamClass.id
            (r.file.endBefore r.nextPacket)).toList.map .ok
          ++ (p.results f.streamClass t' ++ f.resultsFrom (r.nextPacket + 1)) := by
  obtain ⟨rfl, hbase, hrestores⟩ := h
  obtain ⟨p, t', hopen, hrestores', hheld, hresults⟩ :=
    StreamFile.openPacket_spec hf hrestores hplace
  refine ⟨p, t', by rw [hbase, hopen], hrestores', hheld, ?_⟩
  rw [StreamFile.resultsFrom_eq hplace, hresults, List.append_assoc]

/-- Reading further packets takes the first result that any of them has. -/
theorem readPackets_spec (hf : f.Indexed) (h : Ready f r) :
    Yields f r.readPackets (f.resultsFrom r.nextPacket) := by
  fun_induction readPackets r with
  | case1 r hplace opened r' e he =>
    obtain ⟨p, t', hopen, -⟩ := openPacket_of_ready hf h hplace
    rw [show opened = (.ok p, t') from hopen] at he
    cases he
  | case2 r hplace opened r' p hp record hrecord =>
    obtain ⟨p', t', hopen, hrestores, hheld, hresults⟩ := openPacket_of_ready hf h hplace
    have hopened : opened = (.ok p', t') := hopen
    rw [hopened] at hp
    cases hp
    rw [hresults, hrecord]
    refine ⟨p.results f.streamClass t' ++ f.resultsFrom (r.nextPacket + 1), rfl, ?_⟩
    have hready : Ready f { r' with packet := some p, current := some record } :=
      ⟨h.file, h.base, by simpa only [r', hopened] using hrestores⟩
    exact .within hready rfl (by simpa only [r', hopened] using hheld)
  | case3 r hplace opened r' p hp hnone step hstep =>
    obtain ⟨p', t', hopen, hrestores, hheld, hresults⟩ := openPacket_of_ready hf h hplace
    have hopened : opened = (.ok p', t') := hopen
    rw [hopened] at hp
    cases hp
    have hready : Ready f r' := ⟨h.file, h.base, by simpa only [r', hopened] using hrestores⟩
    have hheld' : p.Held f.metadata t' r'.scopes := by simpa only [r', hopened] using hheld
    have hspec := readEvent_spec hready hheld'
    rw [hstep] at hspec
    rw [hresults, hnone]
    exact hspec
  | case4 r hplace opened r' p hp hnone hread ih =>
    obtain ⟨p', t', hopen, hrestores, hheld, hresults⟩ := openPacket_of_ready hf h hplace
    have hopened : opened = (.ok p', t') := hopen
    rw [hopened] at hp
    cases hp
    have hready : Ready f r' := ⟨h.file, h.base, by simpa only [r', hopened] using hrestores⟩
    have hheld' : p.Held f.metadata t' r'.scopes := by simpa only [r', hopened] using hheld
    have hspec := readEvent_spec hready hheld'
    rw [hread] at hspec
    rw [hresults, hnone, hspec]
    exact ih hready
  | case5 r hplace =>
    rw [h.file] at hplace
    have hend : f.resultsFrom r.nextPacket = [] := f.resultsFrom_end (Nat.le_of_not_lt hplace)
    have hpending : Pending f { r with packet := none, current := none }
        (f.resultsFrom r.nextPacket) := .between ⟨h.file, h.base, h.restores⟩ rfl
    exact ⟨hend, hend ▸ hpending⟩

theorem advance_spec (hf : f.Indexed) (h : Pending f r rest) : Yields f r.advance rest := by
  unfold advance
  cases h with
  | between h hpacket =>
    rw [hpacket]
    exact readPackets_spec hf h
  | @within h p hpacket fresh hheld =>
    have hspec := readEvent_spec h hheld
    rw [hpacket, Option.bind_some]
    cases hread : r.readEvent p with
    | none =>
      rw [hread] at hspec
      dsimp only at hspec ⊢
      rw [hspec]
      exact readPackets_spec hf h
    | some step =>
      rw [hread] at hspec
      exact hspec

/-- A reader yields all that is left to be read, in order. -/
theorem drain_eq (hf : f.Indexed) (h : Pending f r rest) : r.drain.1 = rest := by
  fun_induction drain r generalizing rest with
  | case1 r r' hadvance =>
    have hspec := advance_spec hf h
    rw [hadvance] at hspec
    exact hspec.1.symm
  | case2 r event r' hadvance hlt rest' last hdrain ih =>
    have hspec := advance_spec hf h
    rw [hadvance] at hspec
    obtain ⟨left, rfl, hleft⟩ := hspec
    rw [← ih hleft, hdrain]
  | case3 r e r' hadvance hlt rest' last hdrain ih =>
    have hspec := advance_spec hf h
    rw [hadvance] at hspec
    obtain ⟨left, rfl, hleft⟩ := hspec
    rw [← ih hleft, hdrain]

theorem pending_start (f : StreamFile) : Pending f (start f) (f.resultsFrom 0) :=
  .between ⟨rfl, rfl, f.metadata.restores_baseScopes⟩ rfl

end StreamReader

/-- What a packet of a file yields on its own: its preamble, decoded into a tree that holds the
constants of the environment alone, leaves a tree that is the start of every one of its events.
There is a record of lost events if events were lost, then there are the events, back to back from
the end of the preamble on, and then at most one failure. Without a failure, the events end where
the content does. -/
structure StreamFile.ReadsAlone (f : StreamFile) (place : Nat) (entry : PacketEntry)
    (preamble : Preamble) (fresh : ScopeTree) (p : OpenPacket) : Prop where
  decoded : ∃ cursor, Preamble.decode f.metadata entry.offset
    ⟨entry.cursor (f.bytesOf entry), f.metadata.baseScopes⟩ = .ok preamble ⟨cursor, fresh⟩
  streamClass : preamble.streamClass = f.streamClass
  opened : p = preamble.opened place entry (f.bytesOf entry) fresh.checkpoint
  entry_eq : p.entry = entry
  position : p.position = entry.payloadStart
  timestamp : p.timestamp = entry.timestampBegin
  results : f.resultsOf place entry =
    (p.lostRecord? f.metadata.byteOrder f.streamClass.id (f.endBefore place)).toList.map .ok
      ++ p.results f.streamClass fresh
  lost : (p.lostRecord? f.metadata.byteOrder f.streamClass.id (f.endBefore place)).isSome ↔
    0 < entry.lostEvents
  events : ∃ (events : List Event) (failure : Option Error),
    p.BackToBack f.streamClass fresh events failure ∧
      p.results f.streamClass fresh = events.map .ok ++ failure.toList.map .error

/-- A packet that has been opened is read on within its content. -/
theorem StreamFile.belongs_opened {f : StreamFile} {place : Nat} {entry : PacketEntry}
    {preamble : Preamble} {s : Decoding} (hentry : f.index.entries[place]? = some entry)
    (hrun : Preamble.decode f.metadata entry.offset
      ⟨entry.cursor (f.bytesOf entry), f.metadata.baseScopes⟩ = .ok preamble s) :
    (preamble.opened place entry (f.bytesOf entry) s.scopes.checkpoint).Belongs f := by
  have hwithin := (Preamble.steps_decode f.metadata entry.offset).within
    ⟨entry.cursor (f.bytesOf entry), f.metadata.baseScopes⟩ (Nat.zero_le _)
  rw [hrun, final_ok, ← (Preamble.decode_eq_ok hrun).2] at hwithin
  exact ⟨hentry, rfl, hwithin⟩

theorem StreamFile.ReadsAlone.belongs {f : StreamFile} {place : Nat} {entry : PacketEntry}
    {preamble : Preamble} {fresh : ScopeTree} {p : OpenPacket}
    (h : f.ReadsAlone place entry preamble fresh p)
    (hentry : f.index.entries[place]? = some entry) : p.Belongs f := by
  obtain ⟨cursor, hrun⟩ := h.decoded
  rw [h.opened]
  exact f.belongs_opened hentry hrun

theorem StreamFile.Indexed.readsAlone {f : StreamFile} {place : Nat} {entry : PacketEntry}
    (hf : f.Indexed) (hentry : f.index.entries[place]? = some entry) :
    ∃ preamble fresh p, f.ReadsAlone place entry preamble fresh p := by
  obtain ⟨preamble, s, hrun, hpayload, hclass⟩ := hf.decode (Array.mem_of_getElem? hentry)
  refine ⟨preamble, s.scopes, preamble.opened place entry (f.bytesOf entry) s.scopes.checkpoint,
    ⟨s.cursor, hrun⟩, hclass, rfl, rfl, hpayload, rfl, ?_, OpenPacket.isSome_lostRecord?,
    (f.belongs_opened hentry hrun).backToBack hf f.streamClass s.scopes⟩
  unfold resultsOf Metadata.packetResults
  rw [hrun]
  dsimp only
  rw [hclass]

/-- Reading a file from its start to its end, past all failures, yields the results of its packets,
one after the other. -/
theorem StreamReader.drain_eq_flatMap {metadata : Metadata} {policy : LostEventsPolicy}
    {input : Input} {f : StreamFile} (h : StreamFile.ofInput metadata policy input = .ok f) :
    (start f).drain.1 = f.index.entries.toList.zipIdx.flatMap fun (entry, place) =>
      metadata.packetResults place entry (f.bytesOf entry) (f.endBefore place) := by
  obtain ⟨hf, rfl, -⟩ := StreamFile.ofInput_eq_ok h
  exact drain_eq hf (pending_start f)

/-- Reading a file from its start to its end, past all failures, yields what its packets yield
on their own, one after the other. -/
theorem StreamReader.drain_start {metadata : Metadata} {policy : LostEventsPolicy} {input : Input}
    {f : StreamFile} (h : StreamFile.ofInput metadata policy input = .ok f) :
    f.metadata = metadata ∧ input.content = .ok f.bytes ∧
      (start f).drain.1 = f.index.entries.toList.zipIdx.flatMap (fun (entry, place) =>
        metadata.packetResults place entry (f.bytesOf entry) (f.endBefore place)) ∧
      ∀ place entry, f.index.entries[place]? = some entry →
        ∃ preamble fresh p, f.ReadsAlone place entry preamble fresh p := by
  obtain ⟨hf, hmetadata, hcontent⟩ := StreamFile.ofInput_eq_ok h
  exact ⟨hmetadata, hcontent, drain_eq_flatMap h, fun place entry hentry => hf.readsAlone hentry⟩

/-- A trace with one class of events, each of which is a byte. -/
def byteTrace : Metadata :=
  let byte : IntegerType := .byte
  let fields : StructType := ⟨.byte, [("value", .integer byte)]⟩
  let event : EventClass := { id := 0, name := "byte", fields := some fields }
  { byteOrder := .little, streams := [{ id := 0, events := [event] }] }

/-- A file of two bytes, which is one packet of two events. -/
def byteInput : Input := { path := "stream", content := .ok ⟨#[1, 2]⟩ }

/-- The number in a field of an event. -/
def Event.number? (event : Event) (name : String) : Option Nat :=
  (event.fields?.bind (·.field? name)).bind Value.unsigned?

/-- The second event starts where the first one ends, and ends where the content does. -/
theorem StreamReader.drain_start_bytes :
    ∃ f entry preamble fresh p first second middle,
      StreamFile.ofInput byteTrace .clamp byteInput = .ok f ∧ f.index.entries.toList = [entry] ∧
      f.ReadsAlone 0 entry preamble fresh p ∧ (start f).drain.1 = [.ok first, .ok second] ∧
      first.number? "value" = some 1 ∧ second.number? "value" = some 2 ∧
      p.position = 0 ∧ p.Spans f.streamClass fresh first middle ∧
      OpenPacket.Spans { p with position := middle, timestamp := first.timestamp } f.streamClass
        fresh second 16 := by
  have hrun : (StreamFile.ofInput byteTrace .clamp byteInput).toOption.map (fun f =>
      (f.index.entries.toList.map fun entry =>
          (entry.payloadStart, entry.contentSize, entry.lostEvents),
        (start f).drain.1.map fun result => result.toOption.bind (·.number? "value"))) =
          some ([(0, 16, 0)], [some 1, some 2]) := by
    decide +kernel
  obtain ⟨f, h, hrun⟩ := exists_eq_ok hrun
  obtain ⟨hsizes, hnumbers⟩ := Prod.mk.inj hrun
  obtain ⟨entry, hentries, hsize⟩ := List.map_eq_singleton_iff.1 hsizes
  obtain ⟨hpayload, hcontent, hlost⟩ : entry.payloadStart = 0 ∧ entry.contentSize = 16 ∧
      entry.lostEvents = 0 := by simpa using hsize
  have hentry : f.index.entries[0]? = some entry := by
    rw [← Array.getElem?_toList, hentries]
    rfl
  obtain ⟨hmetadata, -, hdrain, halone⟩ := drain_start h
  obtain ⟨preamble, fresh, p, hreads⟩ := halone 0 entry hentry
  obtain ⟨events, failure, hevents, hresults⟩ := hreads.events
  have hnone : p.lostRecord? f.metadata.byteOrder f.streamClass.id (f.endBefore 0) = none := by
    have hno := mt hreads.lost.1 (by omega)
    simpa using hno
  have hyields : (start f).drain.1 = events.map .ok ++ failure.toList.map .error := by
    rw [hdrain, hentries, ← hmetadata]
    change f.resultsOf 0 entry ++ [] = _
    rw [List.append_nil, hreads.results, hnone, hresults]
    rfl
  rw [hyields] at hnumbers
  -- two events have a number, and a failure has none
  rcases events with _ | ⟨first, _ | ⟨second, _ | ⟨third, rest⟩⟩⟩ <;> cases failure <;>
    simp [Except.toOption] at hnumbers
  cases hevents with
  | @event _ _ middle _ _ hfirst hrest =>
    cases hrest with
    | @event _ _ last _ _ hsecond hend =>
      cases hend with
      | ended hended =>
        have hlast : last = 16 := by rw [← hcontent, ← hreads.entry_eq]; exact hended
        exact ⟨f, entry, preamble, fresh, p, first, second, middle, h, hentries, hreads, hyields,
          hnumbers.1, hnumbers.2, hreads.position.trans hpayload, hfirst, hlast ▸ hsecond⟩

end CommonTrace
