import CommonTrace.Document.Record
import CommonTrace.FileTree
import CommonTrace.LostEventsPolicy
import CommonTrace.Toml.Document

/-!
# Configuration

What to read and how is taken from a configuration file. A file named on the command
line comes before one named by the environment, and every option of the command line
comes before the entry of the file.
-/
namespace CommonTrace

/-- A configuration. -/
structure Config where
  schema : Option String := none
  inputs : List String := []
  policy : LostEventsPolicy := .clamp
  seek : Option Nat := none
  limit : Option Nat := none

/-- The options of the command line that concern reading. -/
structure ReaderOptions where
  config : Option String := none
  schema : Option String := none
  policy : Option LostEventsPolicy := none
  seek : Option Nat := none
  limit : Option Nat := none

namespace Config

/-- Reads a configuration. -/
def ofDocument? (d : Document) : Option Config := do
  let r ← d.record? 5 DocumentForm.configuration.allowsSurplus
  let schema ← r.optional 0 "schema" Document.text?
  let inputs ← r.withDefault 1 "inputs" [] (·.listOf? Document.text?)
  let policy ← r.withDefault 2 "lost-events-policy" .clamp (·.word? LostEventsPolicy.parse)
  let seek ← r.optional 3 "seek" (·.unsigned? 64)
  let limit ← r.optional 4 "limit" (·.unsigned? 64)
  return { schema, inputs, policy, seek, limit }

/-- Reads a configuration from a text. -/
def ofText (text : String) : Except Error Config :=
  match (Toml.parse? text).bind ofDocument? with
  | some config => .ok config
  | none => .error .document

/-- The configuration with the options that are given in place of its entries. -/
def withOptions (config : Config) (options : ReaderOptions) : Config where
  schema := options.schema.or config.schema
  inputs := config.inputs
  policy := options.policy.getD config.policy
  seek := options.seek.or config.seek
  limit := options.limit.or config.limit

/-- Loads the configuration, given the path named by the environment. Without a file all
entries have their defaults. -/
def load {m : Type → Type} [Monad m] (files : FileSystem m) (environment : Option String)
    (options : ReaderOptions) : m (Except Error Config) := do
  match options.config.or environment with
  | none => return .ok (withOptions {} options)
  | some path =>
    let text ← files.readText path
    return (text.mapError .file).bind fun text =>
      (ofText text).map fun config => config.withOptions options

end Config

end CommonTrace
