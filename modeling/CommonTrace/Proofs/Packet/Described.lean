import CommonTrace.Proofs.Packet.Entry

/-!
# What a context describes

Making an entry takes three steps: the context describes the packet, the description is checked,
and the events lost before the packet are counted. Only the last one depends on the packets before
it and on what is done when a counter goes backwards.
-/
namespace CommonTrace.PacketEntry

variable {e : PacketEntry} {offset streamId payloadStart fileSize lostSoFar lostEvents : Nat}
  {context : List (String × Value)} {policy : LostEventsPolicy} {error : Error}

/-- The unsigned number that some attributes have under a name. -/
def number? (attributes : Std.TreeMap String AttributeValue) (name : String) : Option Nat :=
  attributes[name]?.bind AttributeValue.unsigned?

/-- The size of the content of a packet before `remaining` bits of its file. -/
def contentSizeOf (attributes : Std.TreeMap String AttributeValue) (remaining : Nat) : Nat :=
  ((number? attributes "content_size").or (number? attributes "packet_size")).getD remaining

/-- The size of a packet before `remaining` bits of its file. -/
def packetSizeOf (attributes : Std.TreeMap String AttributeValue) (remaining : Nat) : Nat :=
  (number? attributes "packet_size").getD
    (if contentSizeOf attributes remaining = 0 then remaining
      else contentSizeOf attributes remaining)

/-- The entry that some attributes describe, whether or not it can be true. -/
def described (offset streamId payloadStart : Nat)
    (attributes : Std.TreeMap String AttributeValue) (fileSize lostEvents : Nat) : PacketEntry where
  offset := offset
  streamId := streamId
  packetSize := packetSizeOf attributes ((fileSize - offset) * 8)
  contentSize := contentSizeOf attributes ((fileSize - offset) * 8)
  payloadStart := payloadStart
  timestampBegin := (number? attributes "timestamp_begin").getD 0
  timestampEnd := (number? attributes "timestamp_end").getD openEnd
  lostEvents := lostEvents
  eventsDiscarded := number? attributes "events_discarded"
  target := .ofAttributes attributes
  attributes := attributes

/-- Checks the sizes and the times of an entry. -/
def check (e : PacketEntry) (fileSize : Nat) : Except Error Unit :=
  if e.contentSize < e.payloadStart ∨ e.packetSize < e.contentSize then
    .error (.inconsistentPacketSize e.offset e.payloadStart e.contentSize e.packetSize)
  else if (fileSize - e.offset) * 8 < e.packetSize then
    .error (.truncatedPacket e.offset e.packetSize ((fileSize - e.offset) * 8))
  else if e.timestampEnd < e.timestampBegin then
    .error (.invalidTimestampRange e.offset e.timestampBegin e.timestampEnd)
  else .ok ()

theorem check_eq_ok :
    e.check fileSize = .ok () ↔ e.payloadStart ≤ e.contentSize ∧ e.contentSize ≤ e.packetSize ∧
      e.packetSize ≤ (fileSize - e.offset) * 8 ∧ e.timestampBegin ≤ e.timestampEnd := by
  unfold check
  split
  · simp only [reduceCtorEq, false_iff]
    omega
  · split
    · simp only [reduceCtorEq, false_iff]
      omega
    · split
      · simp only [reduceCtorEq, false_iff]
        omega
      · simp only [true_iff]
        omega

/-- Making an entry: a description, its check, and the count of lost events. -/
theorem ofContext_eq :
    ofContext offset streamId payloadStart context fileSize lostSoFar policy =
      match (described offset streamId payloadStart (attributesOf context) fileSize 0).check
        fileSize with
      | .error error => .error error
      | .ok _ =>
        match lostBefore offset (number? (attributesOf context) "events_discarded") lostSoFar
          policy with
        | .error error => .error error
        | .ok lostEvents =>
          .ok (described offset streamId payloadStart (attributesOf context) fileSize
            lostEvents) := by
  unfold ofContext
  extract_lets attributes unsigned? remaining contentSize packetSize timestampBegin timestampEnd
    eventsDiscarded record checkEnds checkWithin
  have hcheck : (described offset streamId payloadStart attributes fileSize 0).check fileSize =
      if contentSize < payloadStart ∨ packetSize < contentSize then
        .error (.inconsistentPacketSize offset payloadStart contentSize packetSize)
      else if remaining < packetSize then
        .error (.truncatedPacket offset packetSize remaining)
      else if timestampEnd < timestampBegin then
        .error (.invalidTimestampRange offset timestampBegin timestampEnd)
      else .ok () := rfl
  rw [hcheck]
  split
  · rfl
  · dsimp only [checkWithin]
    split
    · rfl
    · dsimp only [checkEnds]
      split
      · rfl
      · dsimp only [record]
        have hdiscarded : number? attributes "events_discarded" = eventsDiscarded := rfl
        rw [hdiscarded]
        cases lostBefore offset eventsDiscarded lostSoFar policy with
        | error e => rfl
        | ok lostEvents => rfl

/-- The entries that are made: they are described by their context and pass the check. -/
theorem ofContext_eq_ok_iff :
    ofContext offset streamId payloadStart context fileSize lostSoFar policy = .ok e ↔
      e = described offset streamId payloadStart (attributesOf context) fileSize e.lostEvents ∧
        e.check fileSize = .ok () ∧
        lostBefore offset e.eventsDiscarded lostSoFar policy = .ok e.lostEvents := by
  rw [ofContext_eq]
  constructor
  · intro h
    split at h
    · cases h
    next hcheck =>
      split at h
      · cases h
      next lostEvents hlost =>
        cases h
        exact ⟨rfl, hcheck, hlost⟩
  · generalize e.lostEvents = lostEvents
    rintro ⟨rfl, hcheck, hlost⟩
    have hcheck' : (described offset streamId payloadStart (attributesOf context) fileSize 0).check
        fileSize = .ok () := hcheck
    rw [hcheck']
    dsimp only [described] at hlost ⊢
    rw [hlost]

/-- Lost events are counted from the last counter on. A counter that has gone backwards counts
none, or is refused. -/
theorem lostBefore_eq_ok_iff {counter : Option Nat} :
    lostBefore offset counter lostSoFar policy = .ok lostEvents ↔
      lostEvents = counter.elim 0 (· - lostSoFar) ∧
        (policy = .error → lostSoFar ≤ counter.getD lostSoFar) := by
  unfold lostBefore
  cases counter with
  | none => simp [eq_comm]
  | some n =>
    dsimp only [Option.elim_some, Option.getD_some]
    split
    next hle => simp [hle, eq_comm]
    next hlt =>
      cases policy with
      | clamp => simp [Nat.sub_eq_zero_of_le (Nat.le_of_not_le hlt), eq_comm]
      | error => simp [hlt]

/-- An entry that is made where counters must not go backwards is also made where they may. -/
theorem ofContext_clamp
    (h : ofContext offset streamId payloadStart context fileSize lostSoFar .error = .ok e) :
    ofContext offset streamId payloadStart context fileSize lostSoFar .clamp = .ok e := by
  rw [ofContext_eq_ok_iff, lostBefore_eq_ok_iff] at h ⊢
  exact ⟨h.1, h.2.1, h.2.2.1, nofun⟩

/-- What makes the data no packet does so whether or not counters may go backwards. -/
theorem ofContext_clamp_error
    (h : ofContext offset streamId payloadStart context fileSize lostSoFar .error = .error error)
    (htrailing : error.isTrailing) :
    ofContext offset streamId payloadStart context fileSize lostSoFar .clamp = .error error := by
  rw [ofContext_eq] at h ⊢
  split at h
  next error' hcheck => exact h
  next hcheck =>
    split at h
    next error' hlost =>
      cases h
      obtain ⟨-, counter, -, rfl⟩ := lostBefore_eq_error hlost
      cases htrailing
    · cases h

/-- An entry that tells the size of its packet is the same in a longer file. -/
theorem ofContext_longer {fileSize' : Nat} (hle : fileSize ≤ fileSize')
    (hsize : (number? e.attributes "packet_size").isSome)
    (h : ofContext offset streamId payloadStart context fileSize lostSoFar policy = .ok e) :
    ofContext offset streamId payloadStart context fileSize' lostSoFar policy = .ok e := by
  rw [ofContext_eq_ok_iff] at h ⊢
  obtain ⟨heq, hcheck, hlost⟩ := h
  have hattributes : e.attributes = attributesOf context := congrArg attributes heq
  obtain ⟨size, hsize⟩ := Option.isSome_iff_exists.1 hsize
  rw [hattributes] at hsize
  have hcontent (remaining remaining' : Nat) :
      contentSizeOf (attributesOf context) remaining =
        contentSizeOf (attributesOf context) remaining' := by
    unfold contentSizeOf
    rw [hsize]
    cases number? (attributesOf context) "content_size" with
    | none => rfl
    | some content => rfl
  have hpacket (remaining remaining' : Nat) :
      packetSizeOf (attributesOf context) remaining =
        packetSizeOf (attributesOf context) remaining' := by
    unfold packetSizeOf
    rw [hsize]
    rfl
  refine ⟨heq.trans ?_, ?_, hlost⟩
  · unfold described
    rw [hcontent _ ((fileSize' - offset) * 8), hpacket _ ((fileSize' - offset) * 8)]
  · rw [check_eq_ok] at hcheck ⊢
    omega

end CommonTrace.PacketEntry
