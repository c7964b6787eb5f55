import CommonTrace.Metadata
import CommonTrace.Packet.Target
import CommonTrace.Value.Render

/-!
# Events

An event is either decoded from a packet or a record of the events that were lost
before the packet. A record of lost events has fields of its own, so that both are
shown alike.
-/
namespace CommonTrace

/-- What an event consists of. -/
inductive EventBody where
  | decoded (eventClass : EventClass) (header streamContext context fields : Option Value)
  | lost (order : ByteOrder) (count duration : Nat)

/-- An event of a stream. Its packet is told by its place in the index. -/
structure Event where
  streamId : Nat
  timestamp : Nat
  packet : Nat
  target : Target
  packetContext : Option Value
  body : EventBody

namespace Event

/-- The class of a decoded event. -/
def eventClass? (e : Event) : Option EventClass :=
  match e.body with
  | .decoded eventClass _ _ _ _ => some eventClass
  | .lost _ _ _ => none

/-- The name of an event. -/
def name (e : Event) : String :=
  match e.body with
  | .decoded eventClass _ _ _ _ => eventClass.name
  | .lost _ _ _ => "Lost event"

/-- How many events a record of lost events stands for. -/
def lostEvents? (e : Event) : Option Nat :=
  match e.body with
  | .decoded _ _ _ _ _ => none
  | .lost _ count _ => some count

/-- How many events an event accounts for. -/
def count (e : Event) : Nat := e.lostEvents?.getD 1

/-- The fields of a record of lost events: how many, and over what time. They are declared in the
byte order of the trace. -/
def lostFields (order : ByteOrder) (count duration : Nat) : Value :=
  let type := IntegerType.word false order
  let field (name : String) (value : Nat) := (name, Value.integer type 0 value)
  .struct .byte
    [("Lost events", .integer type), ("duration", .integer type)] 0
    (ScopeTree.root .eventFields)
    [field "Lost events" count, field "duration" duration]

/-- The fields of an event. -/
def fields? (e : Event) : Option Value :=
  match e.body with
  | .decoded _ _ _ _ fields => fields
  | .lost order count duration => some (lostFields order count duration)

/-- The text of an event: its time, its name and its fields. -/
def text (e : Event) : String :=
  let start := s!"[{e.timestamp}] {e.name}:"
  match (e.fields?.bind Value.fields?).getD [] with
  | [] => start
  | fields => start ++ " " ++ ", ".intercalate (Value.fieldTexts fields)

end Event

end CommonTrace
