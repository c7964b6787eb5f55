/-!
# Dotted paths

Field paths and their names are joined by points.
-/
namespace CommonTrace.Text

/-- The names of a dotted path. A path without a point is one name. -/
def splitDots (path : String) : List String :=
  (path.toList.splitOn '.').map String.ofList

/-- The path made of the given names. -/
def joinDots (names : List String) : String := ".".intercalate names

end CommonTrace.Text
