import CommonTrace.Stream.Reader
import CommonTrace.Trace.Queue

/-!
# Merging streams

A trace reader holds its streams, each moved to the event that it yields next, and the
queue of those that have one. The event of the stream whose turn it is, is the current
event of the trace. Moving on moves that stream and no other. A stream that fails is
tried once more, from its next packet, and leaves the merge if it fails again.
-/
namespace CommonTrace

/-- Lets a stream wait that has been moved to an event, and no other. -/
def MergeQueue.requeue (q : MergeQueue) (place : Nat) : StreamReader.Outcome → MergeQueue
  | .ok (some event) => q.push ⟨event.timestamp, place⟩
  | .ok none => q
  | .error _ => q

/-- Lets those of some streams wait that have been moved to an event. The first of them
has the given place. -/
def MergeQueue.requeueAll (q : MergeQueue) (place : Nat) :
    List StreamReader.Outcome → MergeQueue
  | [] => q
  | out :: rest => (q.requeue place out).requeueAll (place + 1) rest

/-- An event that is to be merged, with its stream and the place of the stream among the
others. -/
structure PendingEvent where
  place : Nat
  stream : StreamReader
  event : Event

/-- A reader of a trace: its streams in order of priority, the queue of those that have an
event, and the inputs that could not be opened, each with the reason. -/
structure TraceReader where
  streams : List StreamReader
  queue : MergeQueue := {}
  failed : List (String × Error) := []

namespace TraceReader

/-- The reader with its streams moved in some way and queued anew. -/
def restart (t : TraceReader) (move : StreamReader → StreamReader.Outcome × StreamReader) :
    TraceReader :=
  let moved := t.streams.map move
  { t with streams := moved.map (·.2), queue := MergeQueue.requeueAll {} 0 (moved.map (·.1)) }

/-- Merges opened files, of which there has to be one at least. -/
def ofFiles (files : List StreamFile) : Except Error TraceReader :=
  if files.isEmpty then .error .noStreams
  else .ok (restart { streams := files.map StreamReader.start } StreamReader.advance)

/-- Merges streams that may have been moved before, of which there has to be one at least. -/
def ofStreams (streams : List StreamReader) : Except Error TraceReader :=
  if streams.isEmpty then .error .noStreams else .ok (restart { streams } StreamReader.advance)

/-- Files are merged as streams that are at their starts. -/
theorem ofFiles_eq (files : List StreamFile) :
    ofFiles files = ofStreams (files.map StreamReader.start) := by
  rw [ofFiles, ofStreams, List.isEmpty_map]

/-- Opens and merges those inputs that can be opened. -/
def ofInputs (metadata : Metadata) (policy : LostEventsPolicy) (inputs : List Input) :
    Except Error TraceReader := do
  let opened := inputs.map fun input => (input.path, StreamFile.ofInput metadata policy input)
  let reader ← ofFiles (opened.filterMap fun (_, file) => file.toOption)
  let failed := opened.filterMap fun
    | (path, .error e) => some (path, e)
    | (_, .ok _) => none
  return { reader with failed }

/-- Whether there is an event to come. -/
def hasMore (t : TraceReader) : Bool := !t.queue.isEmpty

/-- The current event of the stream whose turn it is. -/
def current? (t : TraceReader) : Option PendingEvent := do
  let turn ← t.queue.peek?
  let stream ← t.streams[turn.place]?
  let event ← stream.current
  return { place := turn.place, stream, event }

/-- The reader with another state of one of its streams and another queue. -/
def withStream (t : TraceReader) (place : Nat) (stream : StreamReader) (queue : MergeQueue) :
    TraceReader :=
  { t with streams := t.streams.set place stream, queue }

/-- Moves past the current event, and yields whether there is another one. -/
def advance (t : TraceReader) : Except Error Bool × TraceReader :=
  match t.queue.pop? with
  | none => (.ok false, t)
  | some (turn, queue) =>
    match t.streams[turn.place]? with
    | none => (.ok !queue.isEmpty, { t with queue })
    | some stream =>
      match stream.advance with
      | (.ok (some event), stream) =>
        (.ok true, t.withStream turn.place stream (queue.push ⟨event.timestamp, turn.place⟩))
      | (.ok none, stream) => (.ok !queue.isEmpty, t.withStream turn.place stream queue)
      | (.error e, stream) =>
        let (again, stream) := stream.advance
        (.error e, t.withStream turn.place stream (queue.requeue turn.place again))

/-- Moves every stream to its first event that is not before a time. -/
def seek (t : TraceReader) (timestamp : Nat) : TraceReader :=
  t.restart fun stream => stream.seek timestamp

/-- A bound on how often the reader can still be moved on. -/
def stepsLeft (t : TraceReader) : Nat :=
  total (t.streams.map StreamReader.workLeft) + t.queue.turns.length

theorem workLeft_withStream {t : TraceReader} {place : Nat} {stream : StreamReader}
    (h : t.streams[place]? = some stream) (stream' : StreamReader) (queue : MergeQueue) :
    total ((t.withStream place stream' queue).streams.map StreamReader.workLeft) +
      stream.workLeft = total (t.streams.map StreamReader.workLeft) + stream'.workLeft := by
  unfold withStream
  simp only
  generalize t.streams = streams at h
  induction streams generalizing place with
  | nil => simp at h
  | cons head rest ih =>
    cases place with
    | zero =>
      cases h
      simp only [List.set_cons_zero, List.map_cons, total_cons]
      omega
    | succ place =>
      have hrest := @ih place (by simpa using h)
      simp only [List.set_cons_succ, List.map_cons, total_cons]
      omega

theorem length_requeue_le (q : MergeQueue) (place : Nat) (out : StreamReader.Outcome) :
    (q.requeue place out).turns.length ≤ q.turns.length + 1 := by
  unfold MergeQueue.requeue
  split <;> simp

/-- Moving past an event leaves less to do. -/
theorem stepsLeft_advance {t : TraceReader} {turn : Turn} (h : t.queue.peek? = some turn) :
    t.advance.2.stepsLeft < t.stepsLeft := by
  obtain ⟨rest, hpop⟩ := MergeQueue.peek?_eq_some.1 h
  have hlength : t.queue.turns.length = rest.turns.length + 1 := by
    rw [MergeQueue.pop?_eq_some.1 hpop, List.length_cons]
  unfold advance stepsLeft
  rw [hpop]
  dsimp only
  split
  · dsimp only
    omega
  next stream hstream =>
    have hwork := StreamReader.workLeft_advance stream
    split
    next event stream' hadvance =>
      have := workLeft_withStream hstream stream' (rest.push ⟨event.timestamp, turn.place⟩)
      have := StreamReader.workLeft_lt_of_advance hadvance (by simp)
      simp only [withStream, MergeQueue.length_push] at *
      omega
    next stream' hadvance =>
      have := workLeft_withStream hstream stream' rest
      rw [hadvance] at hwork
      simp only [withStream] at *
      omega
    next e stream' hadvance =>
      have := workLeft_withStream hstream stream'.advance.2
        (rest.requeue turn.place stream'.advance.1)
      have := StreamReader.workLeft_lt_of_advance hadvance (by simp)
      have := (StreamReader.workLeft_advance stream').1
      have := length_requeue_le rest turn.place stream'.advance.1
      simp only [withStream] at *
      omega

/-- A reader that has a current event has a stream whose turn it is. -/
theorem peek?_of_current? {t : TraceReader} {p : PendingEvent} (h : t.current? = some p) :
    ∃ turn, t.queue.peek? = some turn ∧ p.place = turn.place := by
  unfold current? at h
  cases hpeek : t.queue.peek? with
  | none => simp [hpeek] at h
  | some turn =>
    simp only [hpeek, Option.bind_eq_bind, Option.bind_some, Option.bind_eq_some_iff] at h
    obtain ⟨stream, -, event, -, h⟩ := h
    cases h
    exact ⟨turn, rfl, rfl⟩

/-- Reads at most `limit` events and yields each with the failure, if there was one, on
moving past it. -/
def read (t : TraceReader) (limit : Option Nat) :
    List (PendingEvent × Option Error) × TraceReader :=
  match h : t.current? with
  | none => ([], t)
  | some head =>
    if limit = some 0 then ([], t)
    else
      have : t.advance.2.stepsLeft < t.stepsLeft := by
        obtain ⟨turn, hturn, -⟩ := peek?_of_current? h
        exact stepsLeft_advance hturn
      let step := t.advance
      let failure :=
        match step.1 with
        | .ok _ => none
        | .error e => some e
      let (rest, last) := read step.2 (limit.map (· - 1))
      ((head, failure) :: rest, last)
termination_by t.stepsLeft

/-- When the first stream begins. -/
def timestampBegin? (t : TraceReader) : Option Nat :=
  (t.streams.filterMap fun stream => stream.file.index.timestampBegin?).min?

/-- When the last stream ends. -/
def timestampEnd? (t : TraceReader) : Option Nat :=
  (t.streams.filterMap fun stream => stream.file.index.timestampEnd?).max?

/-- The properties of a trace by name, in the order in which they are reported. -/
def properties (t : TraceReader) : List (String × AttributeValue) :=
  let described : List (String × AttributeValue) :=
    match t.streams.head? with
    | none => []
    | some stream =>
      let metadata := stream.file.metadata
      (metadata.uuid.toList.map fun uuid => ("trace.uuid", .string uuid.text))
        ++ [("trace.byte_order", .string metadata.byteOrder.name)]
        ++ metadata.environment.toList.map fun (name, constant) =>
          ("trace.env." ++ name,
            match constant with
            | .integer value => .integer value
            | .text value => .string value)
  described ++ [("trace.stream_count", .integer t.streams.length)]

end TraceReader

end CommonTrace
