/-!
# Dynamic scopes

What is decoded of a trace hangs below seven scopes: the constants of its
environment, the header and context of the packet, and the header, the two contexts
and the fields of the event. A field path that starts with one of the reserved words
names one of them in full; at most one scope's path starts a given path.
-/
namespace CommonTrace

/-- The scopes at the root of every field path. -/
inductive DynamicScope where
  | environment
  | packetHeader
  | packetContext
  | eventHeader
  | streamEventContext
  | eventContext
  | eventFields
  deriving DecidableEq, Repr

namespace DynamicScope

/-- The scopes in the order of their nodes. -/
def all : List DynamicScope :=
  [environment, packetHeader, packetContext, eventHeader, streamEventContext, eventContext,
    eventFields]

/-- The position of a scope in the list of all. -/
def index : DynamicScope → Nat
  | environment => 0
  | packetHeader => 1
  | packetContext => 2
  | eventHeader => 3
  | streamEventContext => 4
  | eventContext => 5
  | eventFields => 6

/-- The names that lead to a scope. -/
def tokens : DynamicScope → List String
  | environment => ["env"]
  | packetHeader => ["trace", "packet", "header"]
  | packetContext => ["stream", "packet", "context"]
  | eventHeader => ["stream", "event", "header"]
  | streamEventContext => ["stream", "event", "context"]
  | eventContext => ["event", "context"]
  | eventFields => ["event", "fields"]

/-- The full path of a scope. -/
def path (scope : DynamicScope) : String := ".".intercalate scope.tokens

/-- The first names of the scopes, which no relative path may start with. -/
def reserved : List String := ["env", "trace", "stream", "event"]

/-- The scope whose path starts a list of names, and the names after it. -/
def split? (names : List String) : Option (DynamicScope × List String) :=
  all.findSome? fun scope =>
    if scope.tokens.isPrefixOf names then some (scope, names.drop scope.tokens.length) else none

end DynamicScope

end CommonTrace
