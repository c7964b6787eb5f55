import CommonTrace.Trace.Reader

/-!
# Summaries

A summary has a line for each stream of a trace, with the events that were counted in
its file, a line for each input that could not be opened, and the sum of all counts.
Files are told apart by their paths, so a file that is read twice is counted as one
and shown twice. All sums are kept in 64 bits, where they wrap.
-/
namespace CommonTrace.TraceReader

/-- How many events were counted in a file. -/
def countIn (path : String) (events : List PendingEvent) : Nat :=
  wrap (total ((events.filter fun p => Path.same p.stream.file.path path).map (·.event.count)))

/-- An end of the time that a stream spans. -/
def shownTime : Option Nat → String
  | none => "-"
  | some time => if time = PacketEntry.openEnd then "open" else toString time

/-- The line of a stream. -/
def streamLine (file : StreamFile) (count : Nat) : String :=
  let target := (file.index.entries[0]?.map (·.target.text)).getD ""
  s!"{file.path}: stream {file.streamClass.id}, {file.index.entries.size} packets, "
    ++ s!"[{shownTime file.index.timestampBegin?}, {shownTime file.index.timestampEnd?}], "
    ++ s!"target {target}, {wrap file.index.lostEvents} lost, {count} events"

/-- The counts of all streams, in their order. -/
def counts (t : TraceReader) (events : List PendingEvent) : List Nat :=
  t.streams.map fun stream => countIn stream.file.path events

/-- The lines of a summary, given the events that were read. -/
def summary (t : TraceReader) (events : List PendingEvent) : List String :=
  let counts := t.counts events
  List.zipWith (fun (stream : StreamReader) count => streamLine stream.file count) t.streams counts
    ++ (t.failed.map fun (path, e) => s!"{path}: failed, {e.message}")
    ++ [s!"total: {wrap (total counts)} events"]

end CommonTrace.TraceReader
