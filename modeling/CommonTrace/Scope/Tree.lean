import CommonTrace.Scope.Dynamic
import CommonTrace.Value.Basic
import Std.Data.TreeMap

/-!
# Trees of scopes

Every field that is decoded, or is being decoded, has a node in a tree of names
whose roots are the dynamic scopes. A node is bound to its value once the value is
complete. Nodes are numbered in the order of their creation, so a parent's number is
below those of its children, and a checkpoint is told by the number of nodes and the
number of bindings made before it: rewinding to it drops what came later.
-/
namespace CommonTrace

/-- A node: its name, its parent unless it is a root, its children by name, and the
value it is bound to with the count of bindings up to that one. -/
structure ScopeNode where
  name : String
  parent : Option NodeId := none
  children : Std.TreeMap String NodeId := ∅
  value : Option Value := none
  boundAt : Nat := 0

/-- A point to which a tree can be rewound. -/
structure ScopeCheckpoint where
  size : Nat
  clock : Nat
  deriving DecidableEq, Repr

namespace ScopeNode

/-- A node without the children and the value that came after a checkpoint. -/
def before (n : ScopeNode) (point : ScopeCheckpoint) : ScopeNode :=
  { n with
    children := n.children.filter fun _ id => id.index < point.size
    value := if point.clock < n.boundAt then none else n.value }

end ScopeNode

/-- The nodes of a tree by number, and how many bindings were made. -/
structure ScopeTree where
  nodes : Array ScopeNode
  clock : Nat := 0

namespace ScopeTree

/-- The tree in which nothing has been decoded. -/
def empty : ScopeTree :=
  ⟨(DynamicScope.all.map fun scope => { name := scope.path : ScopeNode }).toArray, 0⟩

/-- The node of a dynamic scope. -/
def root (scope : DynamicScope) : NodeId := ⟨scope.index⟩

/-- The node with a given number. -/
def node? (t : ScopeTree) (id : NodeId) : Option ScopeNode := t.nodes[id.index]?

/-- The child of a node with a given name. -/
def child? (t : ScopeTree) (id : NodeId) (name : String) : Option NodeId :=
  (t.node? id).bind fun n => n.children[name]?

/-- The parent of a node. -/
def parent? (t : ScopeTree) (id : NodeId) : Option NodeId := (t.node? id).bind (·.parent)

/-- The value a node is bound to. -/
def value? (t : ScopeTree) (id : NodeId) : Option Value := (t.node? id).bind (·.value)

/-- Changes a node. -/
def modify (t : ScopeTree) (id : NodeId) (f : ScopeNode → ScopeNode) : ScopeTree :=
  { t with nodes := t.nodes.modify id.index f }

/-- The number the next node gets. -/
def next (t : ScopeTree) : NodeId := ⟨t.nodes.size⟩

/-- Adds a child to a node. It hides an earlier child of the same name. -/
def addChild (t : ScopeTree) (parent : NodeId) (name : String) : ScopeTree :=
  let child := t.next
  ({ t with nodes := t.nodes.push { name, parent := some parent } }).modify parent fun n =>
    { n with children := n.children.insert name child }

/-- Removes the children and the value of a node. -/
def clear (t : ScopeTree) (id : NodeId) : ScopeTree :=
  t.modify id fun n => { n with children := ∅, value := none }

/-- Binds a node to a value. -/
def bind (t : ScopeTree) (id : NodeId) (value : Value) : ScopeTree :=
  let clock := t.clock + 1
  { t with clock }.modify id fun n => { n with value := some value, boundAt := clock }

/-- The point reached now. -/
def checkpoint (t : ScopeTree) : ScopeCheckpoint := ⟨t.nodes.size, t.clock⟩

/-- Drops the nodes, links and bindings that came after a checkpoint. -/
def rewind (t : ScopeTree) (point : ScopeCheckpoint) : ScopeTree :=
  { t with nodes := (t.nodes.take point.size).map (·.before point) }

end ScopeTree

end CommonTrace
