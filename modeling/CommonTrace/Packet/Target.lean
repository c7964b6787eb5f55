import CommonTrace.Attribute.Value
import Std.Data.TreeMap

/-!
# Targets

The processor or device a packet was recorded on, as the attributes of the packet
tell it.
-/
namespace CommonTrace

/-- A processor or device, by name and number. -/
structure Target where
  name : Option String
  id : Int
  deriving DecidableEq, Repr

namespace Target

/-- The number of a target that has none. -/
def unknownId : Int := -1

/-- The target of a packet that names none. -/
def unknown : Target := ⟨none, unknownId⟩

/-- Whether anything is known of the target. -/
def isKnown (t : Target) : Bool := t.name.isSome || t.id != unknownId

/-- The text of a target: its name, else its number. -/
def text (t : Target) : String :=
  match t.name with
  | some name => name
  | none => if t.id = unknownId then "unknown" else toString t.id

/-- The signed 64-bit number with the same low bits. -/
def narrow (n : Int) : Int := Int.bmod n (Nat.pow 2 64)

/-- The number in a device name that ends with its only digits, as `CPU3` does. -/
def deviceNumber? (name : String) : Option Int :=
  let digits := name.toList.dropWhile fun c => !c.isDigit
  if digits ≠ [] ∧ digits.all (·.isDigit) then
    let number := digits.foldl (fun n c => 10 * n + (c.toNat - '0'.toNat)) 0
    Width.signed? 64 number
  else none

/-- The target named by a device attribute. -/
def ofDevice : AttributeValue → Target
  | .integer value => ⟨some (toString value), narrow value⟩
  | .enumeration label value => ⟨some (label.getD (toString value)), narrow value⟩
  | .string name => ⟨some name, (deviceNumber? name).getD unknownId⟩
  | .float value => ⟨some value.text, unknownId⟩

/-- The target named by the attributes of a packet: its device, or else its processor. -/
def ofAttributes (attributes : Std.TreeMap String AttributeValue) : Target :=
  match attributes["device"]? with
  | some device => ofDevice device
  | none =>
    match attributes["cpu_id"]?.bind AttributeValue.integer? with
    | some cpu => ⟨some s!"CPU{cpu}", narrow cpu⟩
    | none => unknown

end Target

end CommonTrace
