import CommonTrace.Dump.Command
import CommonTrace.Proofs.Trace.Counting

/-!
# What a summary counts

A run of the command that prints anything has opened the files that its inputs name as a trace. In a
summary every record that was read is counted for each stream whose file has the path of the
record's file, as far as 64 bits hold the sums.
-/
namespace CommonTrace.Dump

section Run

variable {ε α β : Type} {x : ExceptT ε Id α} {k : α → ExceptT ε Id β} {b : β}

theorem bind_eq_ok : (x >>= k).run = (.ok b : Except ε β) ↔
    ∃ a, x.run = (.ok a : Except ε α) ∧ (k a).run = (.ok b : Except ε β) := by
  rw [ExceptT.run_bind]
  cases hx : (x.run : Except ε α) with
  | error e =>
    constructor
    · intro h
      cases h
    · rintro ⟨_, h, -⟩
      cases h
  | ok a =>
    constructor
    · intro h
      exact ⟨a, rfl, h⟩
    · rintro ⟨_, h, hk⟩
      cases h
      exact hk

theorem mapError_eq_ok {ε' : Type} {f : ε → ε'} {result : Except ε α} {a : α} :
    result.mapError f = .ok a ↔ result = .ok a := by
  cases result <;> simp [Except.mapError]

end Run

variable {files : FileSystem Id} {config : Config} {summary : Bool} {inputs : List String}
  {schema : String} {metadata : Metadata} {paths lines : List String} {reader : TraceReader}

/-- What a run of the command comes to before it prints: the paths of the stream files that the
inputs name, and a reader of those that can be opened. -/
structure Prepares (files : FileSystem Id) (config : Config) (inputs : List String) (schema : String)
    (metadata : Metadata) (paths : List String) (reader : TraceReader) : Prop where
  named : expandInputs files schema inputs = .ok paths
  opened : TraceReader.ofInputs metadata config.policy (paths.map (readInput files)) = .ok reader

/-- A directory names its files that have the name of a stream, but for the schema. -/
theorem expandInput_directory {input : String} {names : List String}
    (hdirectory : (files.isDirectory input).run = true) (hnames : files.names input = .ok names) :
    (expandInput files schema input).run = (.ok (((((names.filter isStreamName).mergeSort
      fun a b => decide (a ≤ b)).map (Path.join input)).filter fun path =>
        !Path.same path schema).filterM files.isFile).run : Except FileProblem (List String)) := by
  have hdirectory : files.isDirectory input = true := hdirectory
  have hnames : ExceptT.mk (files.names input) = (pure names : ExceptT FileProblem Id _) := hnames
  rw [expandInput, hdirectory, hnames]
  rfl

/-- Any other input names itself. -/
theorem expandInput_file {input : String} (h : (files.isDirectory input).run = false) :
    (expandInput files schema input).run = (.ok [input] : Except FileProblem (List String)) := by
  have h : files.isDirectory input = false := h
  rw [expandInput, h]
  rfl

theorem expandInputs_cons {input : String} {first rest : List String}
    (hfirst : (expandInput files schema input).run = (.ok first : Except FileProblem _))
    (hrest : expandInputs files schema inputs = .ok rest) :
    expandInputs files schema (input :: inputs) = .ok (first ++ rest) := by
  have hinput : expandInput files schema input = pure first := hfirst
  rw [expandInputs, map_eq_pure_bind] at hrest
  obtain ⟨lists, hlists, hrest⟩ := bind_eq_ok.1 hrest
  cases hrest
  have hlists : inputs.mapM (expandInput files schema) = pure lists := hlists
  rw [expandInputs, List.mapM_cons, hinput, hlists]
  rfl

/-- What a run prints is the report on what it has come to. -/
theorem print_eq_ok : print files config summary inputs schema metadata = .ok lines ↔
    ∃ paths reader, Prepares files config inputs schema metadata paths reader ∧
      report config summary reader = lines := by
  have hread (paths : List String) :
      (ExceptT.lift (paths.mapM (readInput files)) : ExceptT Failure Id _).run =
        (.ok (paths.map (readInput files)) : Except Failure (List Input)) :=
    congrArg Except.ok List.idRun_mapM
  constructor
  · intro h
    obtain ⟨paths, hnamed, h⟩ := bind_eq_ok.1 h
    obtain ⟨contents, hcontents, h⟩ := bind_eq_ok.1 h
    obtain ⟨reader, hreader, h⟩ := bind_eq_ok.1 h
    cases h
    obtain rfl := Except.ok.inj ((hread paths).symm.trans hcontents)
    exact ⟨paths, reader, ⟨mapError_eq_ok.1 hnamed, mapError_eq_ok.1 hreader⟩, rfl⟩
  · rintro ⟨paths, reader, hprepares, rfl⟩
    refine bind_eq_ok.2 ⟨paths, mapError_eq_ok.2 hprepares.named, ?_⟩
    refine bind_eq_ok.2 ⟨_, hread paths, ?_⟩
    exact bind_eq_ok.2 ⟨reader, mapError_eq_ok.2 hprepares.opened, rfl⟩

/-- A run with some options prints a trace once it has its configuration, some inputs, and the path
of a schema that describes the trace. -/
theorem runWith_eq_ok {environment : Option String} {options : Options} :
    runWith files environment options = .ok lines ↔ ∃ config inputs schema text metadata,
      Config.load files environment options.reader = .ok config ∧
      (if options.inputs.isEmpty then config.inputs else options.inputs) = inputs ∧ inputs ≠ [] ∧
      config.schema = some schema ∧ files.readText schema = .ok text ∧
      Schema.metadataOfText text = .ok metadata ∧
      print files config options.summary inputs schema metadata = .ok lines := by
  constructor
  · intro h
    obtain ⟨config, hconfig, h⟩ := bind_eq_ok.1 h
    dsimp only at h
    generalize hinputs : (if options.inputs.isEmpty then config.inputs else options.inputs) =
      inputs at h
    cases inputs with
    | nil => cases h
    | cons input inputs =>
      cases hschema : config.schema with
      | none =>
        rw [hschema] at h
        cases h
      | some schema =>
        rw [hschema] at h
        obtain ⟨text, htext, h⟩ := bind_eq_ok.1 h
        obtain ⟨metadata, hmetadata, h⟩ := bind_eq_ok.1 h
        exact ⟨config, _, schema, text, metadata, mapError_eq_ok.1 hconfig, hinputs,
          List.cons_ne_nil _ _, hschema, mapError_eq_ok.1 htext, mapError_eq_ok.1 hmetadata, h⟩
  · rintro ⟨config, inputs, schema, text, metadata, hconfig, hinputs, hsome, hschema, htext,
      hmetadata, hprint⟩
    refine bind_eq_ok.2 ⟨config, mapError_eq_ok.2 hconfig, ?_⟩
    dsimp only
    rw [hinputs]
    cases inputs with
    | nil => exact absurd rfl hsome
    | cons input inputs =>
      rw [hschema]
      refine bind_eq_ok.2 ⟨text, mapError_eq_ok.2 htext, ?_⟩
      exact bind_eq_ok.2 ⟨metadata, mapError_eq_ok.2 hmetadata, hprint⟩

theorem Prepares.unique {paths' : List String} {reader' : TraceReader}
    (h : Prepares files config inputs schema metadata paths reader)
    (h' : Prepares files config inputs schema metadata paths' reader') :
    paths = paths' ∧ reader = reader' := by
  obtain rfl := Except.ok.inj (h.named.symm.trans h'.named)
  exact ⟨rfl, Except.ok.inj (h.opened.symm.trans h'.opened)⟩

/-- The reader where a run starts to read. -/
def positioned (config : Config) (reader : TraceReader) : TraceReader :=
  match config.seek with
  | some timestamp => reader.seek timestamp
  | none => reader

/-- The records that a run reads: the merged ones from its start on, up to its limit. -/
def consumed (config : Config) (reader : TraceReader) : List PendingEvent :=
  TraceReader.upTo config.limit (positioned config reader).merged

theorem positioned_spec (config : Config) (h : reader.Consistent) :
    (positioned config reader).Consistent ∧ (positioned config reader).files = reader.files ∧
      (positioned config reader).failed = reader.failed := by
  unfold positioned
  split
  next timestamp _ =>
    exact ⟨reader.consistent_restart_of fun r => r.current_seek timestamp,
      reader.files_seek timestamp, rfl⟩
  next => exact ⟨h, rfl, rfl⟩

theorem placed_of_mem_consumed (h : reader.Consistent) {p : PendingEvent}
    (hp : p ∈ consumed config reader) : reader.files[p.place]? = some p.stream.file := by
  obtain ⟨hstart, hfiles, -⟩ := positioned_spec config h
  rw [← hfiles]
  exact TraceReader.placed_of_mem_merged hstart (TraceReader.mem_of_mem_upTo hp)

/-- The lines of a summary, given the counts of its streams and the sum of all counts. -/
def summaryLines (reader : TraceReader) (counts : List Nat) (sum : Nat) : List String :=
  List.zipWith TraceReader.streamLine reader.files counts
    ++ (reader.failed.map fun (path, e) => s!"{path}: failed, {e.message}")
    ++ [s!"total: {sum} events"]

theorem summary_eq (t : TraceReader) (records : List PendingEvent) :
    t.summary records = summaryLines t (t.counts records) (wrap (total (t.counts records))) := by
  rw [summaryLines, TraceReader.files, List.zipWith_map_left]
  rfl

/-- A summary is one of the records that the run has read. -/
theorem report_summary (config : Config) (h : reader.Consistent) :
    report config true reader =
      summaryLines reader (reader.counts (consumed config reader))
        (wrap (total (reader.counts (consumed config reader)))) := by
  obtain ⟨hstart, hfiles, hfailed⟩ := positioned_spec config h
  obtain ⟨hrecords, hread, hlost⟩ := TraceReader.read_spec hstart config.limit
  have hreport : report config true reader =
      ((positioned config reader).read config.limit).2.summary (consumed config reader) := by
    rw [consumed, ← hrecords]
    rfl
  have hcounts : ((positioned config reader).read config.limit).2.counts (consumed config reader) =
      reader.counts (consumed config reader) := by
    rw [TraceReader.counts_eq, TraceReader.counts_eq, TraceReader.tallies, TraceReader.tallies,
      hread, hfiles]
  rw [hreport, summary_eq, hcounts, summaryLines, summaryLines, hread, hlost, hfiles, hfailed]

/-- The sum of the counts that are shown is that of the tallies, as far as 64 bits hold it. -/
theorem wrap_total_counts (t : TraceReader) (records : List PendingEvent) :
    wrap (total (t.counts records)) = wrap (total (t.tallies records)) := by
  rw [TraceReader.counts_eq, wrap_total_map_wrap]

/-- The streams of a run have paths of their own if no two of the files that the inputs name have
the same path. -/
theorem Prepares.distinct (h : Prepares files config inputs schema metadata paths reader)
    (hpaths : paths.Pairwise fun a b => Path.same a b = false) :
    TraceReader.DistinctPaths reader.files := by
  obtain ⟨-, hsublist⟩ := TraceReader.ofInputs_eq_ok h.opened
  have hread : (paths.map (readInput files) : List Input).map (·.path) = paths := by
    rw [List.map_map]
    exact List.map_id _
  rw [hread] at hsublist
  exact List.pairwise_map.1 (hpaths.sublist hsublist)

/-- What is shown for each stream of a run, given what is counted for the records of a stream. -/
def countsBy (reader : TraceReader) (records : List PendingEvent)
    (count : List Event → Nat) : List Nat :=
  (List.range reader.files.length).map fun place => count (TraceReader.taken place records)

/-- In a summary every record that was read is counted once for each stream whose file has the path
of the record's file, in 64 bits. If no two of the files that the inputs name have the same path,
the count shown for a stream is that of its own records, and the sum is that of all records; both
are exact if all records stand for fewer than `2 ^ 64` events. -/
theorem summary_counts (hrun : print files config true inputs schema metadata = .ok lines) :
    ∃ paths reader counts sum, Prepares files config inputs schema metadata paths reader ∧
      lines = summaryLines reader counts sum ∧ sum = wrap (total counts) ∧
      (∀ p ∈ consumed config reader, reader.files[p.place]? = some p.stream.file) ∧
      sum = wrap (total ((consumed config reader).map fun p =>
        p.event.count * reader.copies p.stream.file.path)) ∧
      ((paths.Pairwise fun a b => Path.same a b = false) →
        counts = countsBy reader (consumed config reader)
          (fun events => wrap (total (events.map Event.count))) ∧
        sum = wrap (total ((consumed config reader).map fun p => p.event.count)) ∧
        (total ((consumed config reader).map fun p => p.event.count) < 2 ^ 64 →
          counts = countsBy reader (consumed config reader)
            (fun events => total (events.map Event.count)) ∧
          sum = total counts ∧
          sum = total ((consumed config reader).map fun p => p.event.count))) := by
  obtain ⟨paths, reader, hprepares, rfl⟩ := print_eq_ok.1 hrun
  obtain ⟨hconsistent, -⟩ := TraceReader.ofInputs_eq_ok hprepares.opened
  have hplaced : ∀ p ∈ consumed config reader, reader.files[p.place]? = some p.stream.file :=
    fun p => placed_of_mem_consumed hconsistent
  refine ⟨paths, reader, reader.counts (consumed config reader), _, hprepares,
    report_summary config hconsistent, rfl, hplaced, ?_, fun hpaths => ?_⟩
  · rw [wrap_total_counts, TraceReader.total_tallies]
  have hdistinct := hprepares.distinct hpaths
  have htallies := TraceReader.tallies_of_distinct hdistinct hplaced
  have htotal := TraceReader.total_tallies_of_distinct hdistinct hplaced
  refine ⟨?_, by rw [wrap_total_counts, htotal], fun hfits => ?_⟩
  · rw [TraceReader.counts_eq, htallies, List.map_map]
    rfl
  · -- no count wraps where the sum of all does not
    have hexact : reader.counts (consumed config reader) =
        reader.tallies (consumed config reader) := by
      rw [TraceReader.counts_eq]
      exact map_wrap_of_lt (htotal ▸ hfits)
    rw [hexact, htotal, wrap_of_lt hfits]
    exact ⟨htallies, rfl, rfl⟩

/-- A directory with two streams of the trace of bytes, one of two events and one of a single
event. -/
def byteFiles : FileSystem Id :=
  (FileTree.directory [("streams", .directory [("second", .file ⟨#[3]⟩), (".hidden", .file ⟨#[4]⟩),
    ("first", .file ⟨#[1, 2]⟩)])]).fileSystem

theorem byteFiles_named :
    expandInputs byteFiles "schema" ["streams"] = .ok ["streams/first", "streams/second"] := by
  have hinput := @expandInput_directory byteFiles "schema" "streams"
    ["second", ".hidden", "first"] (by decide +kernel) rfl
  have hnames : ["second", ".hidden", "first"].filter isStreamName = ["second", "first"] := by
    decide +kernel
  have hsort : ["second", "first"].mergeSort (fun a b => decide (a ≤ b)) = ["first", "second"] := by
    simp [List.mergeSort, List.MergeSort.Internal.splitInTwo]
  have hfiles : (((["first", "second"].map (Path.join "streams")).filter fun path =>
      !Path.same path "schema").filterM byteFiles.isFile).run =
        ["streams/first", "streams/second"] := by
    decide +kernel
  rw [hnames, hsort, hfiles] at hinput
  exact expandInputs_cons hinput rfl

theorem summary_counts_bytes :
    ∃ lines paths reader,
      print byteFiles {} true ["streams"] "schema" byteTrace = .ok lines ∧
      Prepares byteFiles {} ["streams"] "schema" byteTrace paths reader ∧
      paths = ["streams/first", "streams/second"] ∧ lines = summaryLines reader [2, 1] 3 ∧
      lines = [
        "streams/first: stream 0, 1 packets, [0, open], target unknown, 0 lost, 2 events",
        "streams/second: stream 0, 1 packets, [0, open], target unknown, 0 lost, 1 events",
        "total: 3 events"] := by
  have hopened : (TraceReader.ofInputs byteTrace .clamp
      (["streams/first", "streams/second"].map (readInput byteFiles))).toOption.map (fun reader =>
        (countsBy reader (consumed {} reader) (fun events => total (events.map Event.count)),
          total ((consumed {} reader).map fun p => p.event.count), report {} true reader)) =
      some ([2, 1], 3, [
        "streams/first: stream 0, 1 packets, [0, open], target unknown, 0 lost, 2 events",
        "streams/second: stream 0, 1 packets, [0, open], target unknown, 0 lost, 1 events",
        "total: 3 events"]) := by
    decide +kernel
  obtain ⟨reader, hreader, hvalues⟩ := exists_eq_ok hopened
  obtain ⟨hcountsBy, hvalues⟩ := Prod.mk.inj hvalues
  obtain ⟨htotal, hreport⟩ := Prod.mk.inj hvalues
  have hprepares : Prepares byteFiles {} ["streams"] "schema" byteTrace
      ["streams/first", "streams/second"] reader :=
    ⟨byteFiles_named, hreader⟩
  have hrun : print byteFiles {} true ["streams"] "schema" byteTrace =
      .ok (report {} true reader) :=
    print_eq_ok.2 ⟨_, reader, hprepares, rfl⟩
  obtain ⟨paths', reader', counts, sum, hprepares', hlines, -, -, -, hdistinct⟩ :=
    summary_counts hrun
  obtain ⟨rfl, rfl⟩ := hprepares.unique hprepares'
  obtain ⟨-, -, hexact⟩ := hdistinct (by decide +kernel)
  obtain ⟨hcounts, -, hsum⟩ := hexact (by rw [htotal]; decide)
  rw [hcountsBy] at hcounts
  rw [htotal] at hsum
  rw [hcounts, hsum] at hlines
  exact ⟨_, _, reader, hrun, hprepares, rfl, hlines, hreport⟩

/-- A file that is named twice is read twice. Its records are counted for both of its streams. -/
theorem summary_counts_twice :
    ∃ lines reader,
      print byteFiles {} true ["streams/first", "streams/first"] "schema" byteTrace = .ok lines ∧
      Prepares byteFiles {} ["streams/first", "streams/first"] "schema" byteTrace
        ["streams/first", "streams/first"] reader ∧
      total ((consumed {} reader).map fun p => p.event.count) = 4 ∧
      lines = [
        "streams/first: stream 0, 1 packets, [0, open], target unknown, 0 lost, 4 events",
        "streams/first: stream 0, 1 packets, [0, open], target unknown, 0 lost, 4 events",
        "total: 8 events"] := by
  have hopened : (TraceReader.ofInputs byteTrace .clamp
      (["streams/first", "streams/first"].map (readInput byteFiles))).toOption.map (fun reader =>
        (total ((consumed {} reader).map fun p => p.event.count), report {} true reader)) =
      some (4, [
        "streams/first: stream 0, 1 packets, [0, open], target unknown, 0 lost, 4 events",
        "streams/first: stream 0, 1 packets, [0, open], target unknown, 0 lost, 4 events",
        "total: 8 events"]) := by
    decide +kernel
  obtain ⟨reader, hreader, hvalues⟩ := exists_eq_ok hopened
  obtain ⟨htotal, hreport⟩ := Prod.mk.inj hvalues
  have hfile : (byteFiles.isDirectory "streams/first").run = false := by decide +kernel
  have hprepares : Prepares byteFiles {} ["streams/first", "streams/first"] "schema" byteTrace
      ["streams/first", "streams/first"] reader :=
    ⟨expandInputs_cons (expandInput_file hfile) (expandInputs_cons (expandInput_file hfile) rfl),
      hreader⟩
  exact ⟨_, reader, print_eq_ok.2 ⟨_, reader, hprepares, rfl⟩, hprepares, htotal, hreport⟩

end CommonTrace.Dump
