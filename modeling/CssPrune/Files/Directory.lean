import CssPrune.Files.Access

/-!
# Directories

What the discovery of files needs of a file system beyond reading and writing, and paths as it
takes them.
-/

namespace CssPrune

/-- File access from a directory in which paths start. -/
structure Directory (m : Type → Type) extends FileAccess m where
  /-- Whether there is a file or a directory at a path. -/
  isPresent : String → m Bool
  /-- Whether there is a directory at a path. -/
  isDirectory : String → m Bool
  /-- The names in a directory, in any order; none where they cannot be listed. -/
  names : String → m (List String)

namespace Path

/-- The names between the slashes of a path. -/
def names (path : String) : List String :=
  (path.toList.splitOn '/').map String.ofList

/-- Whether a path starts at the root of the file system. -/
def isAbsolute (path : String) : Bool :=
  path.toList.head? = some '/'

/-- The steps of a path. Slashes in a row count once, and a dot says nothing, except that it
stands out in front of a path. Paths with equal steps are the same path. -/
def steps (path : String) : List String :=
  let rest := (names path).filter (!·.isEmpty)
  if isAbsolute path then "/" :: rest.filter (· != ".")
  else if rest.head? = some "." then "." :: rest.filter (· != ".")
  else rest.filter (· != ".")

/-- A path through a directory and a name in it. -/
def join (path name : String) : String :=
  if path.isEmpty || path.toList.getLast? = some '/' then path ++ name else path ++ "/" ++ name

end Path

end CssPrune
