import CssPrune.CommandLine.Run

/-!
# The program

Runs the command in the current directory.
-/

namespace CssPrune

/-- The failure behind an error number of the operating system. The number may come negated. -/
def FileFailure.ofCode (code : UInt32) (details : String) : FileFailure :=
  match if code < 0x80000000 then code else 0 - code with
  | 2 => .noSuchFile
  | 20 => .notADirectory
  | 21 => .isADirectory
  | 36 => .nameTooLong
  | code => .other (details.capitalize ++ " (os error " ++ toString code ++ ")")

/-- The failure behind an error of the operating system. -/
def FileFailure.ofError : IO.Error → FileFailure
  | .noFileOrDirectory _ code details | .inappropriateType _ code details
  | .permissionDenied _ code details | .resourceExhausted _ code details
  | .invalidArgument _ code details | .alreadyExists _ code details
  | .otherError code details | .resourceBusy code details
  | .hardwareFault code details | .unsupportedOperation code details => .ofCode code details
  | error => .other (toString error)

/-- The outcome of an action that may fail. -/
def outcomeOf {α : Type} (action : IO α) : IO (Except FileFailure α) := do
  match ← action.toBaseIO with
  | .ok value => return .ok value
  | .error error => return .error (.ofError error)

/-- The current directory of the process. -/
def currentDirectory : Directory IO where
  read path := outcomeOf (IO.FS.readBinFile path)
  write path contents := outcomeOf (IO.FS.writeBinFile path contents)
  isPresent path := do
    if path.isEmpty then return false
    ((← IO.currentDir) / path).pathExists
  isDirectory path := do
    if path.isEmpty then return false
    ((← IO.currentDir) / path).isDir
  names path := do
    match ← outcomeOf ((← IO.currentDir) / path).readDir with
    | .ok entries => return entries.toList.map (·.fileName)
    | .error _ => return []

end CssPrune

/-- Runs the command on the arguments of the process. -/
def main (arguments : List String) : IO UInt32 := do
  let result ← CssPrune.CommandLine.run CssPrune.currentDirectory arguments
  (← IO.getStdout).putStr result.stdout
  (← IO.getStderr).putStr result.stderr
  return result.exitCode.toUInt32
