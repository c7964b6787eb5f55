import CommonTrace.Event.Attributes

/-!
# Flattening with a stack of names

A section can be flattened in one pass that keeps the names of the values around it on a stack: a
name is pushed before the parts of a value are gone through and popped after them, and each scalar
is written under the names on the stack and its own. Whatever a value is, the stack is then as it
was, and what has been written is what the value is flattened into. So the attributes of a section
come out the same.
-/
namespace CommonTrace

/-- The names of the values around, from the outermost one on, and the attributes written so far. -/
structure KeyStack where
  names : List String := []
  written : List (String × AttributeValue) := []

namespace KeyStack

/-- Writes a scalar under a name. -/
def push (k : KeyStack) (name : String) (a : AttributeValue) : KeyStack :=
  { k with written := k.written ++ [(Text.joinDots (k.names ++ [name]), a)] }

/-- Goes into the value of a name. -/
def beginNested (k : KeyStack) (name : String) : KeyStack := { k with names := k.names ++ [name] }

/-- Comes out of the value that was gone into last. -/
def endNested (k : KeyStack) : KeyStack := { k with names := k.names.dropLast }

mutual

/-- Writes the scalars of a value of some name. -/
def value (k : KeyStack) (name : String) : Value → KeyStack
  | .integer _ _ n => k.push name (.integer n)
  | .float _ _ x => k.push name (.float x)
  | .string _ _ text => k.push name (.string text)
  | .enumeration type _ n =>
    let k := k.push name (.integer n)
    match type.label? n with
    | none => k
    | some label => ((k.beginNested name).push "label" (.string label)).endNested
  | .struct _ _ _ _ members => ((k.beginNested name).fields members).endNested
  | .array _ element _ _ members =>
    if Value.isTextElement element then k.push name (.string (Value.unquotedText members))
    else ((k.beginNested name).elements 0 members).endNested
  | .sequence _ element _ _ members =>
    if Value.isTextElement element then k.push name (.string (Value.unquotedText members))
    else ((k.beginNested name).elements 0 members).endNested
  | .variant _ _ _ _ label current => ((k.beginNested name).value label current).endNested

/-- Writes the scalars of named fields. -/
def fields (k : KeyStack) : List (String × Value) → KeyStack
  | [] => k
  | (name, v) :: rest => (k.value name v).fields rest

/-- Writes the scalars of elements, the first of which has the given number. -/
def elements (k : KeyStack) : Nat → List Value → KeyStack
  | _, [] => k
  | index, v :: rest => (k.value (toString index) v).elements (index + 1) rest

end

/-- The attributes of a section. A section that is no struct is one value. -/
def generate : Value → List (String × AttributeValue)
  | .struct _ _ _ _ members => (({} : KeyStack).fields members).written
  | other => (({} : KeyStack).value "value" other).written

variable {k : KeyStack} {name : String}

/-- The same stack, with some scalars written that were reached by names from there. -/
def write (k : KeyStack) (leaves : List (List String × AttributeValue)) : KeyStack :=
  { k with
    written := k.written ++ leaves.map fun (names, a) => (Text.joinDots (k.names ++ names), a) }

@[simp] theorem write_nil (k : KeyStack) : k.write [] = k := by
  simp [write]

theorem write_write (k : KeyStack) (leaves leaves' : List (List String × AttributeValue)) :
    (k.write leaves).write leaves' = k.write (leaves ++ leaves') := by
  simp [write]

theorem push_eq_write (k : KeyStack) (name : String) (a : AttributeValue) :
    k.push name a = k.write [([name], a)] := rfl

/-- What is written within the value of a name is written with the name in front. -/
theorem endNested_write (k : KeyStack) (name : String)
    (leaves : List (List String × AttributeValue)) :
    ((k.beginNested name).write leaves).endNested =
      k.write (leaves.map fun (names, a) => (name :: names, a)) := by
  simp [write, beginNested, endNested]

mutual

/-- Going through a value writes what it is flattened into, and leaves the stack as it was. -/
theorem value_eq : (v : Value) → (k : KeyStack) → (name : String) →
    k.value name v = k.write (v.leaves.map fun (names, a) => (name :: names, a))
  | .integer _ _ n, k, name => by
    rw [value, Value.leaves]
    rfl
  | .float _ _ x, k, name => by
    rw [value, Value.leaves]
    rfl
  | .string _ _ text, k, name => by
    rw [value, Value.leaves]
    rfl
  | .enumeration type _ n, k, name => by
    rw [value, Value.leaves]
    cases type.label? n with
    | none => rfl
    | some label =>
      show (((k.push name (.integer n)).beginNested name).write
        [(["label"], .string label)]).endNested = _
      rw [endNested_write, push_eq_write, write_write]
      rfl
  | .struct _ _ _ _ members, k, name => by
    rw [value, Value.leaves, fields_eq members, endNested_write]
  | .array _ element _ _ members, k, name => by
    rw [value, Value.leaves]
    split
    · rfl
    · rw [elements_eq members, endNested_write]
  | .sequence _ element _ _ members, k, name => by
    rw [value, Value.leaves]
    split
    · rfl
    · rw [elements_eq members, endNested_write]
  | .variant _ _ _ _ label current, k, name => by
    rw [value, Value.leaves, value_eq current, endNested_write]

theorem fields_eq : (members : List (String × Value)) → (k : KeyStack) →
    k.fields members = k.write (Value.fieldLeaves members)
  | [], k => by
    rw [fields, Value.fieldLeaves, write_nil]
  | (name, v) :: rest, k => by
    rw [fields, Value.fieldLeaves, value_eq v, fields_eq rest, write_write]

theorem elements_eq : (members : List Value) → (k : KeyStack) → (index : Nat) →
    k.elements index members = k.write (Value.elementLeaves index members)
  | [], k, index => by
    rw [elements, Value.elementLeaves, write_nil]
  | v :: rest, k, index => by
    rw [elements, Value.elementLeaves, value_eq v, elements_eq rest, write_write]

end

/-- The attributes of a section are those that going through it writes. -/
theorem generate_eq (v : Value) : generate v = v.sectionAttributes := by
  have hother (v : Value) : (({} : KeyStack).value "value" v).written =
      (Value.fieldLeaves [("value", v)]).map fun (names, a) => (Text.joinDots names, a) := by
    rw [value_eq, Value.fieldLeaves, Value.fieldLeaves, List.append_nil]
    rfl
  cases v with
  | struct _ _ _ _ members =>
    rw [generate, fields_eq members]
    rfl
  | _ => exact hother _

end KeyStack

end CommonTrace
