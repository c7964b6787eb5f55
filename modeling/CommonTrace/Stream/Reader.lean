import CommonTrace.Stream.Packet

/-!
# Reading a stream

A reader goes through the packets of a stream file and, in each, through the record of
lost events, if there is one, and the events. After a failure the rest of the packet is
left out and reading goes on with the next one. Every step that yields an event or a
failure leaves less to read (`workLeft_advance`), so reading comes to an end.
-/
namespace CommonTrace

/-- A reader of a stream file: the tree of scopes that everything is decoded into, its
point before all packets, the packet being read, the place of the packet to be read
next, and the event read last. -/
structure StreamReader where
  file : StreamFile
  scopes : ScopeTree
  base : ScopeCheckpoint
  packet : Option OpenPacket
  nextPacket : Nat
  current : Option Event

namespace StreamReader

/-- The reader at the start of a file. -/
def start (file : StreamFile) : StreamReader :=
  let scopes := file.metadata.baseScopes
  { file, scopes, base := scopes.checkpoint, packet := none, nextPacket := 0, current := none }

/-- What a step of reading yields: an event, the end of the stream, or a failure. -/
abbrev Outcome := Except Error (Option Event)

/-- Reads the next event of an open packet, if there is one. -/
def readEvent (r : StreamReader) (p : OpenPacket) : Option (Outcome × StreamReader) :=
  match p.nextEvent with
  | .error e => some (.error e, { r with packet := none, current := none })
  | .ok none => none
  | .ok (some cursor) =>
    match p.decodeEvent r.file.streamClass ⟨cursor, r.scopes.rewind p.point⟩ with
    | .ok event s =>
      some (.ok (some event),
        { r with scopes := s.scopes, packet := some (p.after event s.cursor.position),
                 current := some event })
    | .error e s => some (.error e, { r with scopes := s.scopes, packet := none, current := none })

/-- Reads the first record or event of the next packets that have one. -/
def readPackets (r : StreamReader) : Outcome × StreamReader :=
  if h : r.nextPacket < r.file.index.entries.size then
    let opened := r.file.openPacket r.base r.scopes r.nextPacket
      r.file.index.entries[r.nextPacket]
    let r' := { r with scopes := opened.2, packet := none, nextPacket := r.nextPacket + 1,
                       current := none }
    match opened.1 with
    | .error e => (.error e, r')
    | .ok p =>
      match p.lostRecord? r.file.metadata.byteOrder r.file.streamClass.id
          (r.file.endBefore r.nextPacket) with
      | some record => (.ok (some record), { r' with packet := some p, current := some record })
      | none =>
        match readEvent r' p with
        | some result => result
        | none => readPackets r'
  else (.ok none, { r with packet := none, current := none })
termination_by r.file.index.entries.size - r.nextPacket

/-- Reads the next event. -/
def advance (r : StreamReader) : Outcome × StreamReader :=
  match r.packet.bind r.readEvent with
  | some result => result
  | none => readPackets r

/-- The content of the packets from a place on, in bits, and two for each packet. -/
def contentFrom (f : StreamFile) (place : Nat) : Nat :=
  total ((f.index.entries.toList.drop place).map fun entry => entry.contentSize + 2)

/-- A bound on how many more events and failures there are to read. -/
def workLeft (r : StreamReader) : Nat :=
  (r.packet.map OpenPacket.bitsLeft).getD 0 + contentFrom r.file r.nextPacket

theorem contentFrom_eq (f : StreamFile) {i : Nat} (h : i < f.index.entries.size) :
    contentFrom f i = f.index.entries[i].contentSize + 2 + contentFrom f (i + 1) := by
  unfold contentFrom
  rw [List.drop_eq_getElem_cons (by simpa using h)]
  simp

/-- Reading an event leaves less of its packet. -/
theorem bitsLeft_readEvent {r r' : StreamReader} {p : OpenPacket} {out : Outcome}
    (h : r.readEvent p = some (out, r')) :
    r'.file = r.file ∧ r'.nextPacket = r.nextPacket ∧ out ≠ .ok none ∧
      (r'.packet.map OpenPacket.bitsLeft).getD 0 < p.bitsLeft := by
  unfold readEvent at h
  split at h
  · cases h
    exact ⟨rfl, rfl, by simp, by simp [OpenPacket.bitsLeft]⟩
  · cases h
  next c hc =>
    obtain ⟨hpos, hlt⟩ := OpenPacket.nextEvent_eq_some hc
    split at h
    next event s hs =>
      have := Decoding.position_lt_of_consuming hs
      cases h
      refine ⟨rfl, rfl, by simp, ?_⟩
      simp only [Option.map_some, Option.getD_some, OpenPacket.bitsLeft, OpenPacket.after]
      simp only at this
      omega
    next =>
      cases h
      exact ⟨rfl, rfl, by simp, by simp [OpenPacket.bitsLeft]⟩

theorem entry_openPacket {f : StreamFile} {base : ScopeCheckpoint} {scopes : ScopeTree}
    {place : Nat} {entry : PacketEntry} {p : OpenPacket}
    (h : (f.openPacket base scopes place entry).1 = .ok p) : p.entry = entry := by
  unfold StreamFile.openPacket at h
  dsimp only at h
  split at h
  · cases h
  · dsimp only at h
    split at h
    · cases h
      rfl
    · cases h

/-- Reading further packets stays within their content, and takes some of it unless the
stream has ended. -/
theorem workLeft_readPackets (r : StreamReader) :
    r.readPackets.2.file = r.file ∧
      r.readPackets.2.workLeft ≤ contentFrom r.file r.nextPacket ∧
      (r.readPackets.1 = .ok none → r.readPackets.2.current = none) ∧
      (r.readPackets.1 ≠ .ok none →
        r.readPackets.2.workLeft < contentFrom r.file r.nextPacket) := by
  fun_induction readPackets r with
  | case1 r h opened r' e he =>
    have := contentFrom_eq r.file h
    simp [workLeft, r']
    omega
  | case2 r h opened r' p hp record hr =>
    have := contentFrom_eq r.file h
    have := entry_openPacket hp
    simp [workLeft, r', OpenPacket.bitsLeft, this]
    omega
  | case3 r h opened r' p hp hn result hr =>
    have hc := contentFrom_eq r.file h
    have he := entry_openPacket hp
    obtain ⟨out, r''⟩ := result
    obtain ⟨hf, hnext, hout, hlt⟩ := bitsLeft_readEvent hr
    have hb : p.bitsLeft ≤ r.file.index.entries[r.nextPacket].contentSize + 1 := by
      rw [OpenPacket.bitsLeft, he]
      omega
    simp only [workLeft, hf, hnext, r']
    exact ⟨trivial, by omega, fun h => absurd h hout, fun _ => by omega⟩
  | case4 r h opened r' p hp hn hr ih =>
    have hc := contentFrom_eq r.file h
    obtain ⟨hf, hle, hcur, hlt⟩ := ih
    simp only [r'] at hf hle hlt ⊢
    exact ⟨hf, by omega, hcur, fun h => by have := hlt h; omega⟩
  | case5 r h => simp [workLeft]

/-- A step that does not find the end of the stream leaves less to read. -/
theorem workLeft_advance (r : StreamReader) :
    r.advance.2.workLeft ≤ r.workLeft ∧
      (r.advance.1 = .ok none → r.advance.2.current = none) ∧
      (r.advance.1 ≠ .ok none → r.advance.2.workLeft < r.workLeft) := by
  have hr := workLeft_readPackets r
  unfold advance
  split
  next result h =>
    obtain ⟨p, hp, h⟩ := Option.bind_eq_some_iff.1 h
    obtain ⟨out, r'⟩ := result
    obtain ⟨hf, hnext, hout, hlt⟩ := bitsLeft_readEvent h
    simp only [workLeft, hf, hnext, hp, Option.map_some, Option.getD_some]
    exact ⟨by omega, fun h => absurd h hout, fun _ => by omega⟩
  next =>
    have : contentFrom r.file r.nextPacket ≤ r.workLeft := by
      unfold workLeft
      omega
    exact ⟨by omega, hr.2.2.1, fun h => by have := hr.2.2.2 h; omega⟩

theorem workLeft_lt_of_advance {r r' : StreamReader} {out : Outcome} (h : r.advance = (out, r'))
    (hout : out ≠ .ok none) : r'.workLeft < r.workLeft := by
  have := (workLeft_advance r).2.2
  rw [h] at this
  exact this hout

/-- Reads events until one is not before a time. -/
def skipBefore (r : StreamReader) (timestamp : Nat) : Outcome × StreamReader :=
  match h : r.advance with
  | (.ok (some event), r') =>
    have := workLeft_lt_of_advance h (by simp)
    if event.timestamp < timestamp then skipBefore r' timestamp else (.ok (some event), r')
  | result => result
termination_by r.workLeft

/-- Moves to the first event that is not before a time. -/
def seek (r : StreamReader) (timestamp : Nat) : Outcome × StreamReader :=
  let index := r.file.index
  let place := (index.search timestamp).getD index.entries.size
  skipBefore { r with packet := none, nextPacket := place, current := none } timestamp

/-- All that is left to be read, in order: events and failures. -/
def drain (r : StreamReader) : List (Except Error Event) × StreamReader :=
  match h : r.advance with
  | (.ok none, r') => ([], r')
  | (.ok (some event), r') =>
    have := workLeft_lt_of_advance h (by simp)
    let (rest, last) := drain r'
    (.ok event :: rest, last)
  | (.error e, r') =>
    have := workLeft_lt_of_advance h (by simp)
    let (rest, last) := drain r'
    (.error e :: rest, last)
termination_by r.workLeft

/-- The value that a path stands for in the scopes last decoded into, as seen from the
fields of the event. -/
def resolve (r : StreamReader) (path : String) : Except Error Value :=
  r.scopes.resolve (ScopeTree.root .eventFields) path

end StreamReader

end CommonTrace
