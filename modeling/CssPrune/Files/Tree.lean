import CssPrune.Files.Directory
import CssPrune.OrderedMap

/-!
# A tree of files

A file system in memory with directories, reached from the top of the tree by relative paths.
Names go up to 255 bytes and paths up to 4095. What lies outside of the tree is taken to be an
empty directory, and what is written there is lost.
-/

namespace CssPrune

/-- The files and the directories below the top of a tree, by the names on the way to them. -/
structure FileTree where
  files : OrderedMap (List String) ByteArray := .empty
  directories : List (List String) := []

namespace FileTree

/-- The names on the way to a file or a directory, from a path that goes down from the top. -/
def namesOf (path : String) : List String :=
  (Path.names path).filter (!·.isEmpty)

/-- The directories on the way to a file or a directory, less the top. -/
def directoriesAbove (names : List String) : List (List String) :=
  (List.range (names.length - 1)).map fun depth => names.take (depth + 1)

/-- The tree with some files and directories and with the directories on the way to them. -/
def ofPaths (files : List (String × ByteArray)) (directories : List String) : FileTree :=
  let files := files.map fun (path, contents) => (namesOf path, contents)
  let directories := directories.map namesOf
  { files := ⟨files⟩
    directories :=
      directories ++ (files.map (·.1) ++ directories).flatMap directoriesAbove }

/-- The files of a tree by path. -/
def paths (tree : FileTree) : List (String × ByteArray) :=
  tree.files.entries.map fun (names, contents) => ("/".intercalate names, contents)

/-- What a path leads to. -/
inductive Node where
  /-- The directory at the names in the tree. -/
  | directory (names : List String)
  | file (names : List String)
  /-- A directory outside of the tree. -/
  | outside

/-- Bytes that the longest name has. -/
def maxName : Nat := 255

/-- Bytes that no path has. -/
def pathLimit : Nat := 4096

/-- What a name in a directory leads to. -/
def child (tree : FileTree) (names : List String) (name : String) : Except FileFailure Node :=
  if maxName < name.utf8ByteSize then .error .nameTooLong
  else if (tree.files.get? (names ++ [name])).isSome then .ok (.file (names ++ [name]))
  else if tree.directories.contains (names ++ [name]) then .ok (.directory (names ++ [name]))
  else .error .noSuchFile

/-- One step of a path. -/
def step (tree : FileTree) (node : Node) (name : String) : Except FileFailure Node :=
  match node with
  | .file _ => .error .notADirectory
  | .outside =>
    if name = "" || name = "." || name = ".." then .ok .outside else .error .noSuchFile
  | .directory names =>
    if name = "" || name = "." then .ok node
    else if name = ".." then .ok (if names.isEmpty then .outside else .directory names.dropLast)
    else tree.child names name

/-- Where a path starts. -/
def start (path : String) : Node :=
  if Path.isAbsolute path then .outside else .directory []

/-- The steps of a path one after the other. -/
def walk (tree : FileTree) (node : Node) (names : List String) : Except FileFailure Node :=
  names.foldlM tree.step node

/-- What a path may not be: empty, or too long. -/
def pathFailure? (path : String) : Option FileFailure :=
  if path.isEmpty then some .noSuchFile
  else if pathLimit ≤ path.utf8ByteSize then some .nameTooLong
  else none

/-- What a path leads to. -/
def resolve (tree : FileTree) (path : String) : Except FileFailure Node :=
  match pathFailure? path with
  | some failure => .error failure
  | none => tree.walk (start path) (Path.names path)

/-- The bytes of a file. -/
def read (tree : FileTree) (path : String) : Except FileFailure ByteArray :=
  match tree.resolve path with
  | .error failure => .error failure
  | .ok (.file names) =>
    match tree.files.get? names with
    | some contents => .ok contents
    | none => .error .noSuchFile
  | .ok _ => .error .isADirectory

/-- Puts bytes into the file of a name in a directory. -/
def store (tree : FileTree) (names : List String) (name : String) (contents : ByteArray) :
    Except FileFailure FileTree :=
  match tree.child names name with
  | .ok (.directory _) | .ok .outside => .error .isADirectory
  | .ok (.file _) | .error .noSuchFile =>
    .ok { tree with files := tree.files.insert (names ++ [name]) contents }
  | .error failure => .error failure

/-- Whether a path can only name a directory: it ends in a slash or in a dot. -/
def namesDirectory (path : String) : Bool :=
  ["", ".", ".."].contains ((Path.names path).getLast?.getD "")

/-- Replaces the contents of a file, or makes the file in a directory that is there. -/
def write (tree : FileTree) (path : String) (contents : ByteArray) :
    Except FileFailure FileTree :=
  match pathFailure? path with
  | some failure => .error failure
  | none => do
    let names := namesOf path
    match ← tree.walk (start path) names.dropLast with
    | .file _ => throw .notADirectory
    | .outside => if namesDirectory path then throw .isADirectory else return tree
    | .directory above =>
      if namesDirectory path then throw .isADirectory
      else tree.store above (names.getLast?.getD "") contents

/-- Whether a path leads anywhere. -/
def isPresent (tree : FileTree) (path : String) : Bool :=
  match tree.resolve path with
  | .ok _ => true
  | .error _ => false

/-- Whether a path leads to a directory. -/
def isDirectory (tree : FileTree) (path : String) : Bool :=
  match tree.resolve path with
  | .ok (.directory _) | .ok .outside => true
  | _ => false

/-- The names in the directory that a path leads to. -/
def namesIn (tree : FileTree) (path : String) : List String :=
  match tree.resolve path with
  | .ok (.directory names) =>
    (((tree.files.keys ++ tree.directories).filter fun entry =>
      !entry.isEmpty && entry.dropLast = names).filterMap (·.getLast?)).eraseDups
  | _ => []

/-- The directory at the top of a tree, where a refused write changes nothing. -/
def access : Directory (StateM FileTree) where
  read path := return (← get).read path
  write path contents := do
    match (← get).write path contents with
    | .error failure => return .error failure
    | .ok tree =>
      set tree
      return .ok ()
  isPresent path := return (← get).isPresent path
  isDirectory path := return (← get).isDirectory path
  names path := return (← get).namesIn path

end FileTree

end CssPrune
