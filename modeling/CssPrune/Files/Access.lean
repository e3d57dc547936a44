import CssPrune.Files.Failure
import CssPrune.Text.Utf8

/-!
# File access

What a run needs of a file system: reading and writing files by path. Finding files is the
business of the caller.
-/

namespace CssPrune

/-- Reading and writing files by path. -/
structure FileAccess (m : Type → Type) where
  read : String → m (Except FileFailure ByteArray)
  write : String → ByteArray → m (Except FileFailure Unit)

namespace FileAccess

variable {m : Type → Type} [Monad m]

/-- Why there is no reading and writing without a file system. -/
def absence : FileFailure := .other "NullFs, there is no file system"

/-- The lack of a file system: nothing can be read or written. -/
def absent : FileAccess m where
  read _ := return .error absence
  write _ _ := return .error absence

/-- Reads a file as text. -/
def readText (files : FileAccess m) (path : String) : m (Except FileError Text) := do
  match ← files.read path with
  | .error failure => return .error (.file path failure)
  | .ok bytes =>
    match Text.decode bytes with
    | .error byte => return .error (.notUtf8 path byte)
    | .ok text => return .ok text

/-- Writes a text to a file. -/
def writeText (files : FileAccess m) (path : String) (text : Text) : m (Except FileError Unit) := do
  match ← files.write path (Text.encode text) with
  | .error failure => return .error (.file path failure)
  | .ok () => return .ok ()

end FileAccess

end CssPrune
