import CommonTrace.Scope.Tree

/-!
# Field paths in a tree of scopes

A path whose first name is reserved is absolute: it names a dynamic scope in full and
goes down from there. Any other path is tried from the starting node, then from each
of its ancestors in turn; the first node below which the whole path leads to a bound
node decides.
-/
namespace CommonTrace.ScopeTree

/-- The node reached from a node by the given names. -/
def descend? (t : ScopeTree) (start : NodeId) (names : List String) : Option NodeId :=
  names.foldlM (fun id name => t.child? id name) start

/-- The value of the node reached from a node by the given names. -/
def valueBelow? (t : ScopeTree) (start : NodeId) (names : List String) : Option Value :=
  (t.descend? start names).bind t.value?

/-- The parent of a node, whose number is below the node's. -/
def ancestor? (t : ScopeTree) (id : NodeId) : Option { p : NodeId // p.index < id.index } :=
  (t.parent? id).bind fun p => if h : p.index < id.index then some ⟨p, h⟩ else none

/-- The value found by the given names below the closest of a node and its ancestors
below which they lead to a value. -/
def relative? (t : ScopeTree) (names : List String) (start : NodeId) : Option Value :=
  match t.valueBelow? start names with
  | some value => some value
  | none =>
    match t.ancestor? start with
    | some ⟨parent, _⟩ => relative? t names parent
    | none => none
termination_by start.index

/-- The value that a list of names stands for, as seen from a node. -/
def lookupTokens? (t : ScopeTree) (start : NodeId) (names : List String) : Option Value :=
  match names with
  | [] => none
  | first :: _ =>
    if first ∈ DynamicScope.reserved then
      (DynamicScope.split? names).bind fun (scope, rest) => t.valueBelow? (root scope) rest
    else t.relative? names start

/-- The value that a dotted path stands for, as seen from a node. -/
def lookup? (t : ScopeTree) (start : NodeId) (path : String) : Option Value :=
  t.lookupTokens? start (Text.splitDots path)

/-- The value that a dotted path stands for, or the failure to find one. -/
def resolve (t : ScopeTree) (start : NodeId) (path : String) : Except Error Value :=
  match t.lookup? start path with
  | some value => .ok value
  | none => .error (.scopeResolution path .any)

/-- The names from a dynamic scope down to a node. -/
def names (t : ScopeTree) (id : NodeId) : List String :=
  match t.node? id with
  | none => []
  | some n =>
    match t.ancestor? id with
    | some ⟨parent, _⟩ => names t parent ++ [n.name]
    | none => [n.name]
termination_by id.index

/-- The dotted path from a dynamic scope down to a node. -/
def path (t : ScopeTree) (id : NodeId) : String := Text.joinDots (t.names id)

end CommonTrace.ScopeTree
