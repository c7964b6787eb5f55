import CommonTrace.Config
import CommonTrace.Number.Digits

/-!
# Options of the command line

Options have long names. An option with a value takes it from the same argument, after
an equals sign, or from the next one, which then does not look like an option. No option
is given twice. All arguments after two hyphens, and all that do not start with a
hyphen, are paths; a lone hyphen is a path too. Arguments are read in order, and asking
for help or for the version ends that; both have a short name as well.
-/
namespace CommonTrace.Dump

/-- The options and inputs of a command line. -/
structure Options where
  reader : ReaderOptions := {}
  summary : Bool := false
  inputs : List String := []

/-- What a command line asks for. -/
inductive Request where
  | run (options : Options)
  | help
  | version

/-- Reads a number of 64 bits, which may have a plus sign. -/
def word64? (text : String) : Option Nat := do
  let digits :=
    match text.toList with
    | '+' :: digits => digits
    | digits => digits
  if digits.isEmpty then failure
  let n ← Digits.value? 10 digits
  Width.unsigned? 64 n

/-- Reads a path, which must not be empty. -/
def path? (text : String) : Option String := if text = "" then none else some text

/-- Fills in an option that has no value so far. -/
def once {α : Type} (old new : Option α) : Option (Option α) :=
  match old, new with
  | none, some value => some (some value)
  | _, _ => none

namespace Options

/-- Sets an option with a value. -/
def set (o : Options) (name value : String) : Option Options := do
  let r := o.reader
  let reader ←
    match name with
    | "config" => (once r.config (path? value)).map fun config => { r with config }
    | "schema" => (once r.schema (path? value)).map fun schema => { r with schema }
    | "lost-events-policy" =>
      (once r.policy (LostEventsPolicy.parse value).toOption).map fun policy => { r with policy }
    | "seek" => (once r.seek (word64? value)).map fun seek => { r with seek }
    | "limit" => (once r.limit (word64? value)).map fun limit => { r with limit }
    | _ => none
  return { o with reader }

/-- Adds an input. -/
def addInput (o : Options) (input : String) : Option Options :=
  (path? input).map fun input => { o with inputs := o.inputs ++ [input] }

/-- Whether an argument looks like an option. -/
def looksLikeOption (argument : String) : Bool :=
  argument.toList.head? = some '-' ∧ argument ≠ "-"

/-- Reads arguments on top of options already read. -/
def request? (o : Options) : List String → Option Request
  | [] => some (.run o)
  | argument :: rest =>
    if argument = "--" then (rest.foldlM addInput o).map .run
    else
      match argument.toList with
      | '-' :: '-' :: option =>
        let (name, value) := option.span (· ≠ '=')
        let name := String.ofList name
        match value with
        | _ :: value => (o.set name (String.ofList value)).bind (request? · rest)
        | [] =>
          if name = "help" then some .help
          else if name = "version" then some .version
          else if name = "summary" then
            if o.summary then none else request? { o with summary := true } rest
          else
            match rest with
            | value :: rest =>
              if looksLikeOption value then none
              else (o.set name value).bind (request? · rest)
            | [] => none
      | '-' :: 'h' :: _ => some .help
      | '-' :: 'V' :: _ => some .version
      | _ =>
        if looksLikeOption argument then none
        else (o.addInput argument).bind (request? · rest)

end Options

/-- Reads a command line. -/
def Request.parse? (arguments : List String) : Option Request := Options.request? {} arguments

end CommonTrace.Dump
