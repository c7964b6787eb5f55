import CommonTrace.Bits.Cursor
import CommonTrace.Scope.Lookup

/-!
# Decoding

Decoding a type reads a value of it at the cursor and registers the value, and those
it is made of, in the tree of scopes: the node of a field exists before its parts are
decoded and is bound once it is complete. So a field can refer to any field completed
before it, and to no other. A failure leaves the cursor and the tree as they were when
it happened.
-/
namespace CommonTrace

/-- What decoding reads from and registers in. -/
structure Decoding where
  cursor : Cursor
  scopes : ScopeTree

/-- A step of decoding. -/
abbrev Decode := EStateM Error Decoding

namespace Decoding

/-- Reads from the cursor. -/
def read {α : Type} (f : Cursor → Except Error (α × Cursor)) : Decode α := fun s =>
  match f s.cursor with
  | .ok (a, cursor) => .ok a { s with cursor }
  | .error e => .error e s

/-- Moves the cursor. -/
def move (f : Cursor → Except Error Cursor) : Decode Unit := fun s =>
  match f s.cursor with
  | .ok cursor => .ok () { s with cursor }
  | .error e => .error e s

/-- The position of the cursor. -/
def position : Decode Nat := fun s => .ok s.cursor.position s

/-- Changes the tree of scopes. -/
def register (f : ScopeTree → ScopeTree) : Decode Unit := fun s =>
  .ok () { s with scopes := f s.scopes }

/-- Adds a node for a field. -/
def enter (parent : NodeId) (name : String) : Decode NodeId := fun s =>
  .ok s.scopes.next { s with scopes := s.scopes.addChild parent name }

/-- Binds a node to its value, which is complete. -/
def complete (node : NodeId) (value : Value) : Decode Value := do
  register (·.bind node value)
  return value

/-- Decodes the field `name` of a node: moves to the alignment of its type, adds its
node, and decodes its value there. -/
def field (parent : NodeId) (name : String) (alignment : Nat) (body : NodeId → Decode Value) :
    Decode Value := do
  move (·.align alignment)
  body (← enter parent name)

/-- The value that a path stands for, if it is of the needed kind. -/
def refer {α : Type} (node : NodeId) (path : FieldPath) (need : FieldNeed)
    (select : Value → Option α) : Decode α := fun s =>
  match (s.scopes.lookupTokens? node path.tokens).bind select with
  | some a => .ok a s
  | none => .error (.scopeResolution path.text need) s

/-- Reads an integer. -/
def integer (type : IntegerType) : Decode Int :=
  if type.isSigned then read (·.readSigned type.size type.order)
  else read fun c =>
    (c.readUnsigned type.size type.order).map fun (value, next) => ((value : Int), next)

/-- Decodes `count` elements, the first of which is named by `index`, after those
decoded before them, which are given last first. -/
def elements (decodeElement : String → Decode Value) :
    Nat → Nat → List Value → Decode (List Value)
  | _, 0, decoded => pure decoded.reverse
  | index, count + 1, decoded => do
    let value ← decodeElement (toString index)
    elements decodeElement (index + 1) count (value :: decoded)

/-- Decodes what has to take at least one bit. -/
def consuming {α : Type} (fault : α → Error) (body : Decode α) : Decode α := fun s =>
  match body s with
  | .ok a s' => if s'.cursor.position ≤ s.cursor.position then .error (fault a) s' else .ok a s'
  | .error e s' => .error e s'

theorem position_lt_of_consuming {α : Type} {fault : α → Error} {body : Decode α}
    {s s' : Decoding} {a : α} (h : consuming fault body s = .ok a s') :
    s.cursor.position < s'.cursor.position := by
  unfold consuming at h
  split at h
  · split at h
    · cases h
    · cases h
      omega
  · cases h

end Decoding

namespace Declaration

open Decoding

mutual

/-- Decodes a value whose node exists, at a cursor that is aligned for it. -/
def decodeAt : Declaration → NodeId → Decode Value
  | integer type, node => do
    let offset ← position
    let value ← Decoding.integer type
    complete node (.integer type offset value)
  | float type, node => do
    let offset ← position
    let precision := type.precision
    let value ← read (·.readFloat precision.exponentBits precision.mantissaBits type.order)
    complete node (.float type offset value)
  | enumeration type, node => do
    let offset ← position
    let value ← Decoding.integer type.container
    complete node (.enumeration type offset value)
  | string encoding, node => do
    let offset ← position
    let text ← read Cursor.readString
    complete node (.string encoding offset text)
  | struct minAlignment types, node => do
    let offset ← position
    let fields ← decodeFields types node
    complete node (.struct minAlignment types offset node fields)
  | array length element, node => do
    let offset ← position
    let decodeElement (name : String) :=
      Decoding.field node name element.alignment element.decodeAt
    let values ← Decoding.elements decodeElement 0 length []
    complete node (.array length element offset node values)
  | sequence length element, node => do
    let offset ← position
    let count ← refer node length .unsignedInteger Value.unsigned?
    let decodeElement (name : String) :=
      Decoding.field node name element.alignment element.decodeAt
    let values ← Decoding.elements decodeElement 0 count []
    complete node (.sequence length element offset node values)
  | variant tag options, node => do
    let offset ← position
    match ← refer node tag .enumeration Value.enumLabel? with
    | none => throw (.variantSelection tag.text none)
    | some label =>
      let current ← decodeOption options node tag label
      complete node (.variant tag options offset node label current)

/-- Decodes the fields of a struct in order. -/
def decodeFields : List (String × Declaration) → NodeId → Decode (List (String × Value))
  | [], _ => pure []
  | (name, type) :: rest, node => do
    let value ← Decoding.field node name type.alignment type.decodeAt
    let values ← decodeFields rest node
    pure ((name, value) :: values)

/-- Decodes the alternative of a variant that has the given label. -/
def decodeOption : List (String × Declaration) → NodeId → FieldPath → String → Decode Value
  | [], _, tag, label => throw (.variantSelection tag.text (some label))
  | (name, type) :: rest, node, tag, label =>
    if name = label then Decoding.field node label type.alignment type.decodeAt
    else decodeOption rest node tag label

end

/-- Decodes a value as the field `name` of a node. -/
def decode (type : Declaration) (parent : NodeId) (name : String) : Decode Value :=
  Decoding.field parent name type.alignment type.decodeAt

/-- Decodes a value as the whole content of a dynamic scope. -/
def decodeRoot (type : Declaration) (scope : DynamicScope) : Decode Value := do
  move (·.align type.alignment)
  register (·.clear (ScopeTree.root scope))
  type.decodeAt (ScopeTree.root scope)

end Declaration

end CommonTrace
