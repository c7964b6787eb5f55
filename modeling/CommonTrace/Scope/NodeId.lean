/-!
# Scope nodes by number
-/
namespace CommonTrace

/-- The number of a node in a tree of scopes. -/
structure NodeId where
  index : Nat
  deriving DecidableEq, Repr

end CommonTrace
