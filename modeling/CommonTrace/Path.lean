/-!
# Paths

A path is a text of names joined by slashes. It is shown as it was given; paths are
compared by their components, in which doubled slashes, a slash at the end, and single
points that are not at the start do not count.
-/
namespace CommonTrace.Path

/-- The names of a path between its slashes. -/
def names (path : String) : List String := (path.toList.splitOn '/').map String.ofList

/-- Whether a path starts at the root. -/
def isAbsolute (path : String) : Bool := path.toList.head? = some '/'

/-- The components of a path. -/
def components (path : String) : List String :=
  let parts := (names path).filter fun name => name ≠ "" ∧ name ≠ "."
  if isAbsolute path then "/" :: parts
  else if (names path).head? = some "." then "." :: parts
  else parts

/-- Whether two paths have the same components. -/
def same (path other : String) : Bool := components path = components other

/-- Whether a path holds the zero character, which no name of a file does. -/
def hasZero (path : String) : Bool := path.toList.contains '\x00'

/-- The last component of a path, if it is a name. -/
def fileName? (path : String) : Option String :=
  (components path).getLast?.filter fun name => name ≠ "/" ∧ name ≠ "." ∧ name ≠ ".."

/-- The path of a name within a directory. -/
def join (directory name : String) : String :=
  if directory = "" ∨ directory.toList.getLast? = some '/' then directory ++ name
  else directory ++ "/" ++ name

end CommonTrace.Path
