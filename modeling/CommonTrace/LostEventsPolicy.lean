import CommonTrace.Text.Keyword

/-!
# Counters that go backwards

A packet may report how many events its tracer has discarded so far. A counter
below an earlier one accounts for nothing: it is either read as no further loss,
or refused.
-/
namespace CommonTrace

/-- What to do with a discarded event counter below an earlier one. -/
inductive LostEventsPolicy where
  | clamp
  | error
  deriving DecidableEq, Repr, Inhabited

namespace LostEventsPolicy

/-- The name of a policy. -/
def name : LostEventsPolicy → String
  | clamp => "clamp"
  | error => "error"

/-- Reads the name of a policy. -/
def parse (text : String) : Except Text.UnknownWord LostEventsPolicy :=
  let word := Text.keyword text
  if word = "clamp" then .ok clamp
  else if word = "error" then .ok error
  else .error ⟨.lostEventsPolicy, text⟩

end LostEventsPolicy

end CommonTrace
