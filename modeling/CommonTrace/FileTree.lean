import CommonTrace.Error
import CommonTrace.Path

/-!
# Files

What a program may ask of a file system, whatever the monad in which it is asked, and a
file system held in memory: a tree of directories and files.
-/
namespace CommonTrace

/-- What may be asked of a file system. -/
structure FileSystem (m : Type → Type) where
  /-- The content of a file. -/
  read : String → m (Except FileProblem ByteArray)
  /-- Whether a path leads to a file. -/
  isFile : String → m Bool
  /-- Whether a path leads to a directory. -/
  isDirectory : String → m Bool
  /-- The names in a directory. -/
  names : String → m (Except FileProblem (List String))

/-- The content of a file as text. -/
def FileSystem.readText {m : Type → Type} [Monad m] (files : FileSystem m) (path : String) :
    m (Except FileProblem String) := do
  match ← files.read path with
  | .error problem => return .error problem
  | .ok bytes =>
    match String.fromUTF8? bytes with
    | some text => return .ok text
    | none => return .error .notText

/-- A file, or a directory and what is in it by name. -/
inductive FileTree where
  | file (content : ByteArray)
  | directory (entries : List (String × FileTree))
  deriving Inhabited

namespace FileTree

/-- Puts a file in place, and the directories on the way to it. -/
def insert (content : ByteArray) (name : String) :
    List String → List (String × FileTree) → List (String × FileTree)
  | [], entries => (name, .file content) :: entries
  | first :: path, entries =>
    let inner :=
      match entries.lookup first with
      | some (.directory inner) => inner
      | _ => []
    (first, .directory (insert content name path inner)) :: entries.filter (·.1 ≠ first)

/-- The most bytes that a name has. -/
def nameLimit : Nat := 255

/-- The most bytes that a path has. -/
def pathLimit : Nat := 4095

/-- Follows the names of a path from a place of which the enclosing directories are known,
the nearest first. Nothing follows a file, not even an empty name. -/
def walk : List FileTree → FileTree → List String → Except FileProblem FileTree
  | _, tree, [] => .ok tree
  | _, .file _, _ :: _ => .error .notDirectory
  | enclosing, .directory entries, name :: path =>
    if name = "" ∨ name = "." then walk enclosing (.directory entries) path
    else if name = ".." then
      match enclosing with
      | [] => walk [] (.directory entries) path
      | parent :: enclosing => walk enclosing parent path
    else
      match entries.lookup name with
      | some tree => walk (.directory entries :: enclosing) tree path
      | none => .error (if nameLimit < name.utf8ByteSize then .nameTooLong else .notFound)

/-- Follows a path. -/
def find (root : FileTree) (path : String) : Except FileProblem FileTree :=
  if Path.hasZero path then .error .zeroInName
  else if path = "" then .error .notFound
  else if pathLimit < path.utf8ByteSize then .error .nameTooLong
  else walk [] root (Path.names path)

/-- The file system held by a tree. -/
def fileSystem (root : FileTree) : FileSystem Id where
  read path :=
    match root.find path with
    | .ok (.file content) => .ok content
    | .ok (.directory _) => .error .isDirectory
    | .error problem => .error problem
  isFile path :=
    match root.find path with
    | .ok (.file _) => true
    | _ => false
  isDirectory path :=
    match root.find path with
    | .ok (.directory _) => true
    | _ => false
  names path :=
    match root.find path with
    | .ok (.directory entries) => .ok (entries.map (·.1))
    | .ok (.file _) => .error .notDirectory
    | .error problem => .error problem

end FileTree

end CommonTrace
