import CommonTrace.Scope.Tree

/-!
# Metadata

What has to be known of a trace to read it: the types of its sections, its classes of
streams and, for each, its classes of events. Classes are kept in the order of their
numbers, which are unique.
-/
namespace CommonTrace

/-- A constant of the trace's environment. -/
inductive Constant where
  | integer (value : Int)
  | text (value : String)
  deriving DecidableEq, Repr

/-- The text of a constant. -/
def Constant.shown : Constant → String
  | integer value => toString value
  | text value => "\"" ++ value ++ "\""

/-- A class of events. -/
structure EventClass where
  id : Nat
  name : String
  logLevel : Option Int := none
  context : Option StructType := none
  fields : Option StructType := none

/-- A class of streams and its classes of events. -/
structure StreamClass where
  id : Nat
  packetContext : Option StructType := none
  eventHeader : Option StructType := none
  eventContext : Option StructType := none
  events : List EventClass := []

namespace StreamClass

/-- The event class with a given number. -/
def event? (s : StreamClass) (id : Nat) : Option EventClass := s.events.find? (·.id == id)

/-- The only event class, if there is exactly one. -/
def singleEvent? (s : StreamClass) : Option EventClass :=
  match s.events with
  | [event] => some event
  | _ => none

/-- Inserts an event class among classes in the order of their numbers. -/
def insertEvent (event : EventClass) : List EventClass → List EventClass
  | [] => [event]
  | other :: rest =>
    if event.id < other.id then event :: other :: rest else other :: insertEvent event rest

/-- Adds an event class, whose number must be new. -/
def addEvent (s : StreamClass) (event : EventClass) : Except Malformation StreamClass :=
  if (s.event? event.id).isSome then .error (.duplicateEvent s.id event.id)
  else .ok { s with events := insertEvent event s.events }

end StreamClass

/-- The description of a trace. -/
structure Metadata where
  byteOrder : ByteOrder
  uuid : Option Uuid := none
  environment : Std.TreeMap String Constant := ∅
  packetHeader : Option StructType := none
  streams : List StreamClass := []

namespace Metadata

/-- The number that starts a packet whose header has a field for it. -/
def magic : Nat := 0xC1FC1FC1

/-- Inserts a stream class among classes in the order of their numbers. -/
def insertStream (stream : StreamClass) : List StreamClass → List StreamClass
  | [] => [stream]
  | other :: rest =>
    if stream.id < other.id then stream :: other :: rest else other :: insertStream stream rest

/-- The stream class with a given number, if it is declared. -/
def stream? (m : Metadata) (id : Nat) : Option StreamClass := m.streams.find? (·.id == id)

/-- The stream class with a given number. -/
def stream (m : Metadata) (id : Nat) : Except Error StreamClass :=
  match m.stream? id with
  | some s => .ok s
  | none => .error (.unknownStreamId id)

/-- The stream class of packets that name none: the only one, or else number 0. -/
def singleStream (m : Metadata) : Except Error StreamClass :=
  match m.streams with
  | [s] => .ok s
  | _ => m.stream 0

/-- Adds a stream class, whose number must be new. -/
def addStream (m : Metadata) (stream : StreamClass) : Except Malformation Metadata :=
  if (m.stream? stream.id).isSome then .error (.duplicateStream stream.id)
  else .ok { m with streams := insertStream stream m.streams }

/-- The value of a constant in the tree of scopes. -/
def constantValue (order : ByteOrder) : Constant → Value
  | .integer value => .integer (.word true order) 0 value
  | .text value => .string .utf8 0 value

/-- Registers a value under a node that has no part in any packet. -/
def bindConstant (t : ScopeTree) (parent : NodeId) (name : String) (value : Value) : ScopeTree :=
  (t.addChild parent name).bind t.next value

/-- Registers the constants of the environment, in the order of their names, in place of
those registered before. -/
def bindEnvironment (m : Metadata) (t : ScopeTree) : ScopeTree :=
  let root := ScopeTree.root .environment
  m.environment.toList.foldl (fun t (name, constant) =>
    bindConstant t root name (constantValue m.byteOrder constant)) (t.clear root)

end Metadata

end CommonTrace
