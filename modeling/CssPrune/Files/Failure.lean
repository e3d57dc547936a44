/-!
# Failures

Why a file could not be read or written, and the errors of a run. A run fails only over its files:
text of any form is read.
-/

namespace CssPrune

/-- Why a file system refuses to read or write a file. -/
inductive FileFailure where
  | noSuchFile
  | notADirectory
  | isADirectory
  | nameTooLong
  /-- A reason in the words of the file system. -/
  | other (message : String)
  deriving DecidableEq, Repr

/-- The wording of a failure. -/
def FileFailure.message : FileFailure → String
  | noSuchFile => "No such file or directory (os error 2)"
  | notADirectory => "Not a directory (os error 20)"
  | isADirectory => "Is a directory (os error 21)"
  | nameTooLong => "File name too long (os error 36)"
  | other message => message

/-- Why a run stopped. -/
inductive FileError where
  /-- A file could not be read or written. -/
  | file (path : String) (failure : FileFailure)
  /-- A file is not UTF-8; `byte` is the first one that starts no character. -/
  | notUtf8 (path : String) (byte : UInt8)
  deriving DecidableEq, Repr

namespace FileError

/-- The file that the error is about. -/
def path : FileError → String
  | file path _ => path
  | notUtf8 path _ => path

/-- What is wrong with the file. -/
def reason : FileError → String
  | file _ failure => failure.message
  | notUtf8 _ byte =>
    "Invalid UTF-8 character \"\\x" ++
      String.ofList ((Nat.toDigits 16 byte.toNat).map Char.toUpper) ++ "\""

/-- The error in two lines. -/
def message (error : FileError) : String :=
  "Error: " ++ error.reason ++ "\n  ./" ++ error.path

end FileError

end CssPrune
