import CommonTrace.Packet.Index
import CommonTrace.Packet.Preamble

/-!
# Indexing a file

The packets of a file lie end to end. Each is read from its start in a window that
grows until the preamble fits into it. All preambles are decoded into one tree of
scopes, which is rewound to the constants of the environment before every packet and
before every wider window. Data after the first packet that is no packet ends the
index; what contradicts the packets before it is an error.
-/
namespace CommonTrace

/-- Whether an error tells that data is no packet, rather than a packet that does not fit
those before it. -/
def Error.isTrailing : Error → Bool
  | bufferOverrun _ _ _ => true
  | truncatedPacket _ _ _ => true
  | inconsistentPacketSize _ _ _ _ => true
  | invalidTimestampRange _ _ _ => true
  | badMagic _ _ => true
  | uuidMismatch _ _ _ => true
  | streamIdMismatch _ _ _ => true
  | unknownStreamId _ => true
  | scopeResolution _ _ => true
  | variantSelection _ _ => true
  | _ => false

namespace Metadata

/-- The tree of scopes that holds the constants of the environment alone. -/
def baseScopes (metadata : Metadata) : ScopeTree := metadata.bindEnvironment .empty

/-- The bytes of the first window. -/
def firstWindow : Nat := 64 * 1024

theorem firstWindow_pos {offset size : Nat} (h : offset < size) :
    0 < min firstWindow (size - offset) := by
  unfold firstWindow
  omega

/-- Decodes the preamble of the packet at an offset, of which `window` bytes are tried
first, then twice as many as long as more are needed and there are more. The tree of
scopes is rewound between tries. -/
def windowedPreamble (metadata : Metadata) (file : ByteArray) (offset : Nat)
    (point : ScopeCheckpoint) (window : Nat) (h : 0 < window) (scopes : ScopeTree) :
    EStateM.Result Error ScopeTree Preamble :=
  let bytes := file.extract offset (offset + window)
  match Preamble.decode metadata offset ⟨.ofBytes bytes, scopes⟩ with
  | .ok preamble s => .ok preamble s.scopes
  | .error e s =>
    match e with
    | .bufferOverrun _ _ _ =>
      if _hw : window < file.size - offset then
        windowedPreamble metadata file offset point (min (window * 2) (file.size - offset))
          (by omega) (s.scopes.rewind point)
      else .error e s.scopes
    | _ => .error e s.scopes
termination_by file.size - offset - window

/-- The entry and the stream class of the packet at an offset. -/
def entryAt (metadata : Metadata) (policy : LostEventsPolicy) (file : ByteArray) (offset : Nat)
    (h : offset < file.size) (lostSoFar : Nat) :
    EStateM Error ScopeTree (PacketEntry × StreamClass) := do
  let point := (← get).checkpoint
  let preamble ← metadata.windowedPreamble file offset point
    (min firstWindow (file.size - offset)) (firstWindow_pos h)
  let entry ← Preamble.lift (PacketEntry.ofContext offset preamble.streamClass.id
    preamble.payloadStart preamble.fields file.size lostSoFar policy)
  return (entry, preamble.streamClass)

end Metadata

namespace PacketIndex

/-- A packet's entry and class, if the class is the one of the packets before it. -/
def checkClass (streamClass : Option StreamClass) (offset : Nat)
    (found : PacketEntry × StreamClass) : Except Error (PacketEntry × StreamClass) :=
  match streamClass with
  | some expected =>
    if expected.id = found.2.id then .ok found
    else .error (.streamIdMismatch offset found.2.id expected.id)
  | none => .ok found

/-- How far the indexing of a file has come: the tree of scopes, where the next packet
starts, the last counter of discarded events, the packets so far and their class. -/
structure Progress where
  scopes : ScopeTree
  offset : Nat := 0
  lostSoFar : Nat := 0
  index : PacketIndex := {}
  streamClass : Option StreamClass := none

/-- What comes of a packet that cannot be read: it ends the index, unless it is the first or
contradicts those before it. -/
def Progress.afterFailure (p : Progress) (e : Error) (scopes : ScopeTree) :
    Except Error (Progress × Bool) :=
  if p.streamClass.isSome && e.isTrailing then .ok ({ p with scopes }, false) else .error e

/-- What comes of a packet of a stream class: it is added to the index, or ends it if it takes
no bits. The flag tells whether there may be another packet after it. -/
def Progress.afterPacket (p : Progress) (entry : PacketEntry) (found : StreamClass)
    (scopes : ScopeTree) : Except Error (Progress × Bool) :=
  let streamClass := some (p.streamClass.getD found)
  if entry.packetSize = 0 then .ok ({ p with scopes, streamClass }, false)
  else
    match p.index.append entry with
    | .error e => .error e
    | .ok index =>
      .ok ({ scopes, offset := p.offset + entry.byteSize,
             lostSoFar := entry.eventsDiscarded.getD p.lostSoFar, index, streamClass }, true)

/-- Indexes the packet at the offset that has been reached. The flag tells whether there
may be another one after it. -/
def step (metadata : Metadata) (policy : LostEventsPolicy) (file : ByteArray)
    (base : ScopeCheckpoint) (p : Progress) (h : p.offset < file.size) :
    Except Error (Progress × Bool) :=
  let found : EStateM Error ScopeTree (PacketEntry × StreamClass) := do
    let found ← metadata.entryAt policy file p.offset h p.lostSoFar
    Preamble.lift (checkClass p.streamClass p.offset found)
  match found (p.scopes.rewind base) with
  | .error e scopes => p.afterFailure e scopes
  | .ok (entry, found) scopes => p.afterPacket entry found scopes

/-- A packet after which there may be another one moves forward. -/
theorem Progress.offset_lt_of_afterPacket {p p' : Progress} {entry : PacketEntry}
    {found : StreamClass} {scopes : ScopeTree}
    (h : p.afterPacket entry found scopes = .ok (p', true)) : p.offset < p'.offset := by
  unfold afterPacket at h
  dsimp only at h
  split at h
  · cases h
  next hsize =>
    split at h
    · cases h
    · cases h
      simp only [PacketEntry.byteSize]
      omega

/-- There is no packet after what cannot be read. -/
theorem Progress.afterFailure_eq_ok {p p' : Progress} {e : Error} {scopes : ScopeTree}
    {more : Bool} (h : p.afterFailure e scopes = .ok (p', more)) :
    p' = { p with scopes } ∧ more = false ∧ p.streamClass.isSome ∧ e.isTrailing := by
  unfold afterFailure at h
  split at h
  next hends =>
    cases h
    exact ⟨rfl, rfl, by simpa using hends⟩
  · cases h

/-- A step after which there may be another packet moves forward. -/
theorem offset_lt_of_step {metadata : Metadata} {policy : LostEventsPolicy} {file : ByteArray}
    {base : ScopeCheckpoint} {p p' : Progress} {h : p.offset < file.size}
    (hs : step metadata policy file base p h = .ok (p', true)) : p.offset < p'.offset := by
  unfold step at hs
  dsimp only at hs
  split at hs
  · cases (Progress.afterFailure_eq_ok hs).2.1
  · exact Progress.offset_lt_of_afterPacket hs

/-- Indexes the packets from the offset that has been reached on. -/
def buildFrom (metadata : Metadata) (policy : LostEventsPolicy) (file : ByteArray)
    (base : ScopeCheckpoint) (p : Progress) : Except Error Progress :=
  if h : p.offset < file.size then
    match hs : step metadata policy file base p h with
    | .error e => .error e
    | .ok (p', false) => .ok p'
    | .ok (p', true) =>
      have := offset_lt_of_step hs
      buildFrom metadata policy file base p'
  else .ok p
termination_by file.size - p.offset

/-- Indexes the packets of a file. The result also tells the stream class they belong to,
unless there are none. -/
def build (metadata : Metadata) (policy : LostEventsPolicy) (file : ByteArray) :
    Except Error (PacketIndex × Option StreamClass) :=
  let scopes := metadata.baseScopes
  (buildFrom metadata policy file scopes.checkpoint { scopes }).map fun p =>
    (p.index, p.streamClass)

end PacketIndex

end CommonTrace
