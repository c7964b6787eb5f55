import CommonTrace.Dump.Options
import CommonTrace.Schema.Reading
import CommonTrace.Trace.Summary

/-!
# Printing a trace

The command reads its configuration and the schema, opens the files that its inputs
name, and prints the events of all streams in the order of time, or a summary of them.
Everything that can fail does so before the first line is printed; files that cannot
be opened and events that cannot be decoded are passed over.
-/
namespace CommonTrace.Dump

/-- The ways the command can fail. -/
inductive Failure where
  | usage
  | trace (error : Error)
  | directory (problem : FileProblem)
  | missingInputs
  | missingSchema

namespace Failure

/-- The exit code of a failure. -/
def exitCode : Failure → Nat
  | usage => 2
  | _ => 70

/-- The report of a failure, a line for the failure and one for its cause. -/
def lines : Failure → List String
  | usage => ["usage: ctf-dump [OPTIONS] [INPUT]..."]
  | trace (.file problem) =>
    [(Error.file problem).message, "Caused by: " ++ problem.message]
  | trace error => [error.message]
  | directory problem => [problem.message]
  | missingInputs => ["At least one CTF stream input path is required."]
  | missingSchema => ["A schema file describing the trace is required."]

end Failure

variable {m : Type → Type} [Monad m]

/-- Whether a name in a directory may be that of a stream. -/
def isStreamName (name : String) : Bool := name ≠ "metadata" ∧ name.toList.head? ≠ some '.'

/-- The stream files that an input names: those in a directory, in the order of their
names, but for the schema, or else the input itself. -/
def expandInput (files : FileSystem m) (schema input : String) :
    ExceptT FileProblem m (List String) := do
  if ← ExceptT.lift (files.isDirectory input) then
    let names ← ExceptT.mk (files.names input)
    let names := (names.filter isStreamName).mergeSort (fun a b => decide (a ≤ b))
    let paths := (names.map (Path.join input)).filter fun path => !Path.same path schema
    ExceptT.lift (paths.filterM files.isFile)
  else return [input]

/-- The stream files that some inputs name, in the order of the inputs. -/
def expandInputs (files : FileSystem m) (schema : String) (inputs : List String) :
    m (Except FileProblem (List String)) :=
  ExceptT.run (List.flatten <$> inputs.mapM (expandInput files schema))

/-- Reads a file as an input. -/
def readInput (files : FileSystem m) (path : String) : m Input :=
  (fun content => { path, content }) <$> files.read path

/-- What to print of a trace. -/
def report (config : Config) (summary : Bool) (reader : TraceReader) : List String :=
  let start :=
    match config.seek with
    | some timestamp => reader.seek timestamp
    | none => reader
  let (read, last) := start.read config.limit
  let events := read.map (·.1)
  if summary then last.summary events else events.map (·.event.text)

/-- Opens the files that some inputs name as a trace and yields what to print of it. -/
def print (files : FileSystem m) (config : Config) (summary : Bool) (inputs : List String)
    (schema : String) (metadata : Metadata) : m (Except Failure (List String)) := ExceptT.run do
  let paths ← ExceptT.mk ((·.mapError .directory) <$> expandInputs files schema inputs)
  let contents ← ExceptT.lift (paths.mapM (readInput files))
  let reader ← ExceptT.mk (pure
    ((TraceReader.ofInputs metadata config.policy contents).mapError .trace))
  return report config summary reader

/-- Prints a trace as some options ask for, given the path of a configuration file named by the
environment. -/
def runWith (files : FileSystem m) (environment : Option String) (options : Options) :
    m (Except Failure (List String)) := ExceptT.run do
  let config ← ExceptT.mk ((·.mapError .trace) <$> Config.load files environment options.reader)
  let inputs := if options.inputs.isEmpty then config.inputs else options.inputs
  if inputs.isEmpty then throw .missingInputs
  let some schema := config.schema | throw .missingSchema
  let text ← ExceptT.mk ((·.mapError (.trace ∘ .file)) <$> files.readText schema)
  let metadata ← ExceptT.mk (pure ((Schema.metadataOfText text).mapError .trace))
  ExceptT.mk (print files config options.summary inputs schema metadata)

/-- The first lines of the help, before the list of options. -/
def helpLines : List String :=
  ["Print the events of CTF stream files in timestamp order", "",
    "Usage: ctf-dump [OPTIONS] [input]..."]

/-- The version of the command. -/
def versionLine : String := "ctf-reader 0.1.0"

/-- Runs the command, given the path of a configuration file named by the environment. -/
def run (files : FileSystem m) (environment : Option String) (arguments : List String) :
    m (Except Failure (List String)) :=
  match Request.parse? arguments with
  | none => pure (.error .usage)
  | some .help => pure (.ok helpLines)
  | some .version => pure (.ok [versionLine])
  | some (.run options) => runWith files environment options

end CommonTrace.Dump
