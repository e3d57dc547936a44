import CssPrune.Files.Access
import CssPrune.OrderedMap

/-!
# Files in memory

A file system that holds files by path, where paths are equal only if their texts are. A file may
be unreadable, and writing to a path may be refused.
-/

namespace CssPrune

/-- What is stored at a path. -/
inductive StoredFile where
  | bytes (contents : ByteArray)
  /-- A file that cannot be read, and why. -/
  | unreadable (message : String)

/-- Files by path, and the paths that are not written to with the reasons for that. -/
structure MemoryFiles where
  files : OrderedMap String StoredFile := .empty
  denied : OrderedMap String String := .empty

namespace MemoryFiles

/-- The bytes at a path. -/
def read (disk : MemoryFiles) (path : String) : Except FileFailure ByteArray :=
  match disk.files.get? path with
  | none => .error (.other "file not found")
  | some (.unreadable message) => .error (.other message)
  | some (.bytes contents) => .ok contents

/-- Replaces what is at a path, or adds a file. -/
def write (disk : MemoryFiles) (path : String) (contents : ByteArray) :
    Except FileFailure MemoryFiles :=
  match disk.denied.get? path with
  | some message => .error (.other message)
  | none => .ok { disk with files := disk.files.insert path (.bytes contents) }

/-- Access to files in memory, where a refused write changes nothing. -/
def access : FileAccess (StateM MemoryFiles) where
  read path := return (← get).read path
  write path contents := do
    match (← get).write path contents with
    | .error failure => return .error failure
    | .ok disk =>
      set disk
      return .ok ()

end MemoryFiles

end CssPrune
