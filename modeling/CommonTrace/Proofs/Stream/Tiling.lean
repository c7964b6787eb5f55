import CommonTrace.Proofs.Packet.Search
import CommonTrace.Proofs.Stream.Reachable

/-!
# Events tile the content of packets

The first event of a packet starts where the preamble ends, and every other one where the one before
it ended. An event takes at least one bit and does not end behind the content, and a packet is left
without a failure only where its content ends. This is told of a single step, which reads on in the
open packet or goes on to the next packet that has something to read, and holds wherever a reader
has been moved to.
-/
namespace CommonTrace

open Decoding

variable {f : StreamFile} {p : OpenPacket} {place : Nat}

namespace OpenPacket

theorem lostEvents_of_lostRecord? {order : ByteOrder} {streamId : Nat} {endBefore : Option Nat}
    (h : p.lostRecord? order streamId endBefore = none) : p.entry.lostEvents = 0 := by
  unfold lostRecord? at h
  split at h
  next hzero => exact hzero
  · cases h

/-- A packet that has been opened and not read any further: what is to be read next starts where the
preamble ended. -/
structure Opened (p : OpenPacket) (f : StreamFile) (place : Nat) : Prop extends p.Belongs f where
  place_eq : p.place = place
  position_eq : p.position = p.entry.payloadStart

end OpenPacket

/-- A packet is opened at the end of its preamble. -/
theorem StreamFile.opened_of_openPacket {t t' : ScopeTree} {entry : PacketEntry} (hf : f.Indexed)
    (ht : f.metadata.Restores t) (hentry : f.index.entries[place]? = some entry)
    (h : f.openPacket f.metadata.baseScopes.checkpoint t place entry = (.ok p, t')) :
    p.Opened f place := by
  obtain ⟨preamble, s, hrun, hpayload, -⟩ := hf.decode (Array.mem_of_getElem? hentry)
  -- the preamble is decoded in the same way whatever the tree of scopes has held before
  have halike : Decoding.Alike ⟨entry.cursor (f.bytesOf entry), f.metadata.baseScopes⟩
      ⟨entry.cursor (f.bytesOf entry), t.rewind f.metadata.baseScopes.checkpoint⟩ :=
    ⟨rfl, ht.clean.alike.symm⟩
  obtain ⟨s', hrun', hs'⟩ := ((Preamble.steps_decode f.metadata _).alike halike).ok hrun
  have hwithin := (f.belongs_opened hentry hrun).position_le
  unfold openPacket at h
  dsimp only at h
  rw [hrun'] at h
  dsimp only at h
  split at h
  · cases h
    exact ⟨⟨hentry, rfl, hwithin⟩, rfl, hpayload⟩
  · cases h

namespace StreamReader

variable {r : StreamReader} {step : Outcome × StreamReader}

/-- What a step takes out of an open packet: an event, or a failure after which the rest of the
packet is left out. -/
inductive TakesFrom (f : StreamFile) (p : OpenPacket) : Outcome × StreamReader → Prop
  | event {scopes : ScopeTree} {event : Event} {last : Nat} {r' : StreamReader}
      (span : p.Spans f.streamClass scopes event last)
      (packet : r'.packet = some (p.after event last))
      (next : r'.nextPacket = p.place + 1) : TakesFrom f p (.ok (some event), r')
  | failure {e : Error} {r' : StreamReader} (left : p.position < p.entry.contentSize)
      (packet : r'.packet = none) (next : r'.nextPacket = p.place + 1) :
      TakesFrom f p (.error e, r')

/-- What a step takes out of the packets from a place on: nothing where there are none; what comes
after a packet that has neither lost events nor content behind its preamble; the record of the lost
events of a packet that it opens; or what it takes out of a packet that it opens. -/
inductive TakesOn (f : StreamFile) : Nat → Outcome × StreamReader → Prop
  | ended {place : Nat} {r' : StreamReader} (ended : f.index.entries.size ≤ place)
      (packet : r'.packet = none) : TakesOn f place (.ok none, r')
  | passed {place : Nat} {entry : PacketEntry} {step : Outcome × StreamReader}
      (indexed : f.index.entries[place]? = some entry) (lost : entry.lostEvents = 0)
      (content : entry.payloadStart = entry.contentSize) (rest : TakesOn f (place + 1) step) :
      TakesOn f place step
  | record {place : Nat} {p : OpenPacket} {record : Event} {r' : StreamReader}
      (opened : p.Opened f place) (lost : p.lostRecord? f.metadata.byteOrder f.streamClass.id
        (f.endBefore place) = some record) (packet : r'.packet = some p)
      (next : r'.nextPacket = place + 1) :
      TakesOn f place (.ok (some record), r')
  | first {place : Nat} {p : OpenPacket} {step : Outcome × StreamReader}
      (opened : p.Opened f place) (lost : p.entry.lostEvents = 0) (takes : TakesFrom f p step) :
      TakesOn f place step

/-- What a step takes: something out of the open packet, or something out of the packets after it
once the content of the open packet has ended. -/
inductive Takes (f : StreamFile) (r : StreamReader) : Outcome × StreamReader → Prop
  | within {p : OpenPacket} {step : Outcome × StreamReader} (packet : r.packet = some p)
      (takes : TakesFrom f p step) : Takes f r step
  | beyond {step : Outcome × StreamReader}
      (ended : ∀ p, r.packet = some p → p.position = p.entry.contentSize)
      (takes : TakesOn f r.nextPacket step) : Takes f r step

theorem readEvent_takes (hf : f.Indexed) (hfile : r.file = f) (hp : p.Belongs f)
    (hnext : r.nextPacket = p.place + 1) :
    match r.readEvent p with
    | none => p.position = p.entry.contentSize
    | some step => TakesFrom f p step := by
  unfold readEvent
  rcases hp.nextEvent_cases hf with ⟨hend, hposition⟩ | ⟨cursor, hstarts⟩
  · rw [hend]
    exact hposition
  · rw [hstarts.next, hfile]
    dsimp only
    cases hrun : p.decodeEvent f.streamClass ⟨cursor, r.scopes.rewind p.point⟩ with
    | error e s => exact .failure hstarts.left rfl hnext
    | ok event s => exact .event (hp.spans hf hstarts hrun) rfl hnext

/-- The packet that is opened next, and the tree of scopes that can be restored then. -/
theorem Ready.opened (hf : f.Indexed) (h : Ready f r)
    (hplace : r.nextPacket < r.file.index.entries.size)
    (hp : (r.file.openPacket r.base r.scopes r.nextPacket
      r.file.index.entries[r.nextPacket]).1 = .ok p) :
    p.Opened f r.nextPacket ∧ f.metadata.Restores (r.file.openPacket r.base r.scopes r.nextPacket
      r.file.index.entries[r.nextPacket]).2 := by
  obtain ⟨q, t', hopen, hrestores, -⟩ := openPacket_of_ready hf h hplace
  rw [hopen] at hp ⊢
  cases hp
  obtain ⟨rfl, hbase, hbefore⟩ := h
  rw [hbase] at hopen
  exact ⟨StreamFile.opened_of_openPacket hf hbefore (Array.getElem?_eq_getElem hplace) hopen,
    hrestores⟩

theorem readPackets_takes (hf : f.Indexed) (h : Ready f r) :
    TakesOn f r.nextPacket r.readPackets := by
  fun_induction readPackets r with
  | case1 r hplace opened r' e he =>
    -- every packet of an indexed file can be opened
    obtain ⟨p, t', hopen, -⟩ := openPacket_of_ready hf h hplace
    rw [show opened = (.ok p, t') from hopen] at he
    cases he
  | case2 r hplace opened r' p hp record hrecord =>
    obtain ⟨hopened, -⟩ := h.opened hf hplace hp
    rw [h.file] at hrecord
    exact .record hopened hrecord rfl rfl
  | case3 r hplace opened r' p hp hnone step hstep =>
    obtain ⟨hopened, -⟩ := h.opened hf hplace hp
    have htakes := readEvent_takes (r := r') hf h.file hopened.toBelongs
      (congrArg (· + 1) hopened.place_eq.symm)
    rw [hstep] at htakes
    exact .first hopened (OpenPacket.lostEvents_of_lostRecord? hnone) htakes
  | case4 r hplace opened r' p hp hnone hread ih =>
    obtain ⟨hopened, hrestores⟩ := h.opened hf hplace hp
    have hend := readEvent_takes (r := r') hf h.file hopened.toBelongs
      (congrArg (· + 1) hopened.place_eq.symm)
    rw [hread] at hend
    exact .passed (hopened.place_eq ▸ hopened.entry) (OpenPacket.lostEvents_of_lostRecord? hnone)
      (hopened.position_eq.symm.trans hend) (ih ⟨h.file, h.base, hrestores⟩)
  | case5 r hplace =>
    rw [h.file] at hplace
    exact .ended (Nat.le_of_not_lt hplace) rfl

/-- The open packet of a reader, if there is one, is the one before the packet to be opened next.
What is to be read of it starts within its content, not before the end of its preamble. -/
def Placed (f : StreamFile) (r : StreamReader) : Prop :=
  ∀ p, r.packet = some p →
    p.Belongs f ∧ p.entry.payloadStart ≤ p.position ∧ r.nextPacket = p.place + 1

theorem placed_of_none (h : r.packet = none) : Placed f r := fun p hp => by
  rw [h] at hp
  cases hp

theorem TakesFrom.placed (hf : f.Indexed) (hp : p.Belongs f)
    (hstart : p.entry.payloadStart ≤ p.position) (h : TakesFrom f p step) : Placed f step.2 := by
  cases h with
  | @event scopes event last r' span packet next =>
    intro q hq
    rw [packet] at hq
    cases hq
    have hle : last ≤ (p.entry.cursor p.bytes).limit := by
      rw [hp.limit_eq hf]
      exact span.le
    exact ⟨⟨hp.entry, hp.bytes, hle⟩, Nat.le_trans hstart (Nat.le_of_lt span.lt), next⟩
  | failure left packet next => exact placed_of_none packet

theorem TakesOn.placed (hf : f.Indexed) (h : TakesOn f place step) : Placed f step.2 := by
  induction h with
  | ended ended packet => exact placed_of_none packet
  | passed indexed lost content rest ih => exact ih
  | record opened lost packet next =>
    intro q hq
    rw [packet] at hq
    cases hq
    exact ⟨opened.toBelongs, Nat.le_of_eq opened.position_eq.symm, by rw [next, opened.place_eq]⟩
  | first opened lost takes =>
    exact takes.placed hf opened.toBelongs (Nat.le_of_eq opened.position_eq.symm)

/-- Steps lead from a place within the content of a packet to such a place. -/
theorem Takes.placed (hf : f.Indexed) (hplaced : Placed f r) (h : Takes f r step) :
    Placed f step.2 := by
  cases h with
  | within packet takes =>
    obtain ⟨hp, hstart, -⟩ := hplaced _ packet
    exact takes.placed hf hp hstart
  | beyond ended takes => exact takes.placed hf

theorem advance_takes (hf : f.Indexed) (h : Ready f r) (hplaced : Placed f r) :
    Takes f r r.advance := by
  unfold advance
  cases hpacket : r.packet with
  | none => exact .beyond (fun p hp => by cases hpacket.symm.trans hp) (readPackets_takes hf h)
  | some p =>
    obtain ⟨hp, hstart, hnext⟩ := hplaced p hpacket
    have htakes := readEvent_takes hf h.file hp hnext
    rw [Option.bind_some]
    cases hread : r.readEvent p with
    | none =>
      rw [hread] at htakes
      refine .beyond (fun q hq => ?_) (readPackets_takes hf h)
      cases hpacket.symm.trans hq
      exact htakes
    | some step =>
      rw [hread] at htakes
      exact .within hpacket htakes

/-- What holds between any two steps, as for `Steady`, of the place of the reader as well. -/
structure Settled (f : StreamFile) (r : StreamReader) : Prop where
  steady : Steady f r
  placed : Placed f r

theorem Settled.takes (hf : f.Indexed) (h : Settled f r) : Takes f r r.advance :=
  advance_takes hf h.steady.ready h.placed

theorem Settled.advance (hf : f.Indexed) (h : Settled f r) : Settled f r.advance.2 :=
  ⟨(h.steady.advance hf).1, (h.takes hf).placed hf h.placed⟩

theorem settled_start (f : StreamFile) : Settled f (start f) :=
  ⟨steady_start f, placed_of_none rfl⟩

/-- The reader between packets from which moving to a time goes on. -/
def movedTo (r : StreamReader) (timestamp : Nat) : StreamReader :=
  { r with packet := none, nextPacket := r.file.index.found timestamp, current := none }

theorem Settled.movedTo (h : Settled f r) (timestamp : Nat) : Settled f (r.movedTo timestamp) :=
  ⟨h.steady.moved _, placed_of_none rfl⟩

theorem Reachable.settled (hf : f.Indexed) (h : Reachable f r) : Settled f r := by
  induction h with
  | start => exact settled_start f
  | advance _ ih => exact ih.advance hf
  | @seek r _ timestamp ih =>
    obtain ⟨r', hr', heq⟩ : ∃ r', Settled f r' ∧ r.seek timestamp = r'.advance :=
      exists_advance_of_skipBefore (fun _ h => h.advance hf) (ih.movedTo timestamp)
    rw [heq]
    exact hr'.advance hf

end StreamReader

end CommonTrace
