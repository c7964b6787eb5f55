import CommonTrace.Event.Basic
import CommonTrace.Text.Dotted

/-!
# Attributes of events

An event is flattened into named scalars: a few of its own, and those reached from
each of its sections, named by the fields, elements and labels on the way. An
enumeration is reported by its number, and by its label under a name of its own.
-/
namespace CommonTrace

namespace Value

/-- The text held by an array of bytes, without the quotes at either end. -/
def unquotedText (elements : List Value) : String :=
  let trimmed := ((bytesText elements).toList.dropWhile (· == '"')).reverse
  String.ofList (trimmed.dropWhile (· == '"')).reverse

mutual

/-- The scalars reached from a value, each by the names on the way to it. -/
def leaves : Value → List (List String × AttributeValue)
  | integer _ _ value => [([], .integer value)]
  | float _ _ value => [([], .float value)]
  | string _ _ text => [([], .string text)]
  | enumeration type _ value =>
    ([], .integer value) ::
      (type.label? value).toList.map fun label => (["label"], .string label)
  | struct _ _ _ _ fields => fieldLeaves fields
  | array _ element _ _ elements =>
    if isTextElement element then [([], .string (unquotedText elements))]
    else elementLeaves 0 elements
  | sequence _ element _ _ elements =>
    if isTextElement element then [([], .string (unquotedText elements))]
    else elementLeaves 0 elements
  | variant _ _ _ _ label current => current.leaves.map fun (names, v) => (label :: names, v)

/-- The scalars reached from named fields. -/
def fieldLeaves : List (String × Value) → List (List String × AttributeValue)
  | [] => []
  | (name, value) :: rest =>
    (value.leaves.map fun (names, v) => (name :: names, v)) ++ fieldLeaves rest

/-- The scalars reached from elements, the first of which has the given number. -/
def elementLeaves : Nat → List Value → List (List String × AttributeValue)
  | _, [] => []
  | index, value :: rest =>
    (value.leaves.map fun (names, v) => (toString index :: names, v))
      ++ elementLeaves (index + 1) rest

end

/-- The scalars of a section by dotted name. A section that is no struct is one value. -/
def sectionAttributes (v : Value) : List (String × AttributeValue) :=
  let leaves :=
    match v with
    | struct _ _ _ _ fields => fieldLeaves fields
    | other => fieldLeaves [("value", other)]
  leaves.map fun (names, v) => (Text.joinDots names, v)

end Value

/-- The names of an event's attributes. -/
inductive EventKey where
  | name
  | timestamp
  | streamId
  | id
  | logLevel
  | header (path : String)
  | commonContext (path : String)
  | specificContext (path : String)
  | packetContext (path : String)
  | field (path : String)
  deriving DecidableEq, Repr

namespace EventKey

/-- The place of a kind of name among the others. -/
def rank : EventKey → Nat
  | name => 0
  | timestamp => 1
  | streamId => 2
  | id => 3
  | logLevel => 4
  | header _ => 5
  | commonContext _ => 6
  | specificContext _ => 7
  | packetContext _ => 8
  | field _ => 9

/-- The path of a name within its section. -/
def path : EventKey → String
  | header path => path
  | commonContext path => path
  | specificContext path => path
  | packetContext path => path
  | field path => path
  | _ => ""

/-- Names are ordered by kind and then by path. -/
def order : EventKey → EventKey → Ordering :=
  compareLex (compareOn rank) (compareOn path)

/-- The name in full. -/
def text : EventKey → String
  | name => "event.name"
  | timestamp => "event.timestamp"
  | streamId => "event.stream_id"
  | id => "event.id"
  | logLevel => "event.log_level"
  | header path => "event.header." ++ path
  | commonContext path => "event.common_context." ++ path
  | specificContext path => "event.specific_context." ++ path
  | packetContext path => "event.packet_context." ++ path
  | field path => "event." ++ path

end EventKey

namespace Event

/-- The attributes of an event in order. Where two are named alike, the later counts. -/
abbrev Attributes := Std.TreeMap EventKey AttributeValue EventKey.order

/-- The attributes an event has on its own. -/
def ownAttributes (e : Event) : List (EventKey × AttributeValue) :=
  [(.name, .string e.name), (.timestamp, .integer e.timestamp), (.streamId, .integer e.streamId)]
    ++ match e.eventClass? with
      | none => []
      | some eventClass =>
        (.id, .integer eventClass.id) ::
          eventClass.logLevel.toList.map fun level => (.logLevel, .integer level)

/-- The sections of an event, each with the kind of name of its attributes. -/
def sections (e : Event) : List ((String → EventKey) × Value) :=
  let of (key : String → EventKey) (v : Option Value) := v.toList.map fun v => (key, v)
  match e.body with
  | .decoded _ header streamContext context fields =>
    of .header header ++ of .commonContext streamContext ++ of .specificContext context
      ++ of .packetContext e.packetContext ++ of .field fields
  | .lost order count duration =>
    of .packetContext e.packetContext ++ of .field (some (lostFields order count duration))

/-- The attributes of an event. -/
def attributes (e : Event) : Attributes :=
  .ofList (e.ownAttributes ++ e.sections.flatMap fun (key, v) =>
    v.sectionAttributes.map fun (path, v) => (key path, v))
    EventKey.order

end Event

end CommonTrace
